import BcpFlux.Flow.Bookkeeping
import BcpFlux.Socket.Accounts

/-! # Charges are conserved up to announcements

The counters of a peer against what its associations and its sending transfers owe.  Each
operation changes the counters of one peer by what it adds to or takes out of the rings,
so the two stay equal.  The one exception is the announcement of a transfer: it is charged
like a packet, and no ring holds it.
-/

namespace BcpFlux.Socket
open Library Wire BcpFlux.Flow Peer BcpFlux.Transfer Function AssocTable

namespace Accounts

def flowsOwe (s : Accounts) (p : ℕ) : ℕ × ℕ :=
  listed FlowDirEntry.assocSlot (fun a => (s.rings a).owes) (s.table.dirs p)

def transfersOwe (s : Accounts) (p : ℕ) : ℕ × ℕ := s.transfers.outbound.owes p

/-- The books of every peer, with the refunds still to be made and the announcements on top. -/
structure Inv (pending : ℕ → ℕ × ℕ) (s : Accounts) : Prop where
  sound : s.table.Sound
  transfers : s.transfers.Sending
  weighed : ∀ a, (s.rings a).Weighed
  tallied : ∀ i, (s.transfers.outbound.records i).Tallied
  width : ∀ p, (s.budgets p).congestionBudget < 2 ^ 32
  books : ∀ p, s.table.peers p ≠ none → (s.budgets p).charged =
    s.flowsOwe p + s.transfersOwe p + s.announced p • announceCharge + pending p
  vacant : ∀ p, s.table.peers p = none → s.transfers.outbound.entries p = []

def Balanced (s : Accounts) : Prop := Inv 0 s

def due (p : ℕ) (amount : ℕ × ℕ) : ℕ → ℕ × ℕ := update 0 p amount

variable {s : Accounts} {pending pending' : ℕ → ℕ × ℕ} {p q a : ℕ} {amount : ℕ × ℕ}

theorem due_self (p : ℕ) (amount : ℕ × ℕ) : due p amount p = amount := update_self _ _ _

theorem due_of_ne (hq : q ≠ p) (amount : ℕ × ℕ) : due p amount q = 0 := update_of_ne hq _ _

theorem due_zero (p : ℕ) : due p 0 = 0 := update_eq_self p 0

/-! ## Who is listed where -/

theorem flowsOwe_congr {s' : Accounts} (hdirs : s'.table.dirs p = s.table.dirs p)
    (hrings : ∀ a ∈ (s.table.dirs p).map FlowDirEntry.assocSlot, s'.rings a = s.rings a) :
    s'.flowsOwe p = s.flowsOwe p := by
  rw [flowsOwe, hdirs]
  apply listed_congr
  intro e he
  rw [hrings e.assocSlot (List.mem_map_of_mem he)]

theorem Inv.peer_of_listed (h : Inv pending s)
    (ha : a ∈ (s.table.dirs p).map FlowDirEntry.assocSlot) :
    s.table.Live a ∧ (s.table.assocs a).peerSlot = p ∧ s.table.peers p ≠ none := by
  obtain ⟨e, he, rfl⟩ := List.mem_map.mp ha
  obtain ⟨hlive, -, hpeer⟩ := h.sound.entries p e he
  obtain ⟨peer, hsome, -⟩ := h.sound.owner _ hlive
  refine ⟨hlive, hpeer, ?_⟩
  rw [← hpeer, hsome]
  exact Option.some_ne_none peer

theorem Inv.ne_of_listed (h : Inv pending s) {b : ℕ}
    (ha : a ∈ (s.table.dirs p).map FlowDirEntry.assocSlot)
    (hb : b ∈ (s.table.dirs q).map FlowDirEntry.assocSlot) (hq : q ≠ p) : b ≠ a := by
  rintro rfl
  exact hq ((h.peer_of_listed hb).2.1.symm.trans (h.peer_of_listed ha).2.1)

theorem Inv.dirs_of_vacant (h : Inv pending s) (hp : s.table.peers p = none) :
    s.table.dirs p = [] := by
  rw [List.eq_nil_iff_forall_not_mem]
  intro e he
  exact (h.peer_of_listed (List.mem_map_of_mem he)).2.2 hp

variable {t : AssocTable}

theorem mem_of_findOutAssoc {flowId : ℕ}
    (hfind : t.findOutAssoc p flowId = some a) :
    a ∈ (t.dirs p).map FlowDirEntry.assocSlot := by
  rw [findOutAssoc, Option.map_eq_some_iff] at hfind
  obtain ⟨e, he, rfl⟩ := hfind
  exact List.mem_map_of_mem (List.mem_of_find?_eq_some he)

theorem mem_of_index {index : ℕ} {e : FlowDirEntry}
    (hindex : (t.dirs p)[index]? = some e) :
    e.assocSlot ∈ (t.dirs p).map FlowDirEntry.assocSlot :=
  List.mem_map_of_mem (List.mem_of_getElem? hindex)

/-! ## Packets weigh at least a byte -/

theorem Inv.flowsOwe_le (h : Inv pending s) (p : ℕ) : (s.flowsOwe p).2 ≤ (s.flowsOwe p).1 :=
  listed_induction (P := fun charge : ℕ × ℕ => charge.2 ≤ charge.1) (Nat.le_refl 0)
    (fun _ _ => Nat.add_le_add) (fun e _ => (h.weighed e.assocSlot).owes_le)

theorem transfersOwe_le (s : Accounts) (p : ℕ) : (s.transfersOwe p).2 ≤ (s.transfersOwe p).1 :=
  listed_induction (P := fun charge : ℕ × ℕ => charge.2 ≤ charge.1) (Nat.le_refl 0)
    (fun _ _ => Nat.add_le_add) (fun _ _ => owed_le)

theorem announceCharge_le : announceCharge.2 ≤ announceCharge.1 := by decide

theorem Balanced.roomy (h : Balanced s) (hp : s.table.peers p ≠ none) :
    OutAssociation.Roomy (s.budgets p) := by
  refine ⟨h.width p, ?_⟩
  have hbooks := h.books p hp
  have hbytes := congrArg Prod.fst hbooks
  have hpackets := congrArg Prod.snd hbooks
  have hflows := h.flowsOwe_le p
  have htransfers := s.transfersOwe_le p
  have hannounced := Nat.mul_le_mul_left (s.announced p) announceCharge_le
  simp only [PeerBudget.charged, Prod.fst_add, Prod.snd_add, Prod.smul_fst, Prod.smul_snd,
    smul_eq_mul, Pi.zero_apply, Prod.fst_zero, Prod.snd_zero] at hbytes hpackets
  omega

/-! ## One peer at a time -/

variable {flow : OutAssociation} {budget : PeerBudget}

theorem Inv.exchange (h : Inv pending s) (ha : a ∈ (s.table.dirs p).map FlowDirEntry.assocSlot)
    (hflow : flow.Weighed)
    (hwidth : budget.congestionBudget < 2 ^ 32) (hother : ∀ q, q ≠ p → pending' q = pending q)
    (haccount : budget.charged + (s.rings a).owes + pending p =
      (s.budgets p).charged + flow.owes + pending' p) :
    Inv pending' ((s.setRing a flow).setBudget p budget) where
  __ := h
  weighed := all_update (P := OutAssociation.Weighed) hflow h.weighed a
  width := all_update (P := fun b : PeerBudget => b.congestionBudget < 2 ^ 32) hwidth h.width p
  books := by
    intro q hq
    by_cases hqp : q = p
    · subst hqp
      have hflows : ((s.setRing a flow).setBudget q budget).flowsOwe q + (s.rings a).owes =
          s.flowsOwe q + flow.owes := by
        have hupdate := listed_update (f := fun a => (s.rings a).owes) (h.sound.entries_nodup q) ha
          flow.owes
        refine Eq.trans ?_ hupdate
        congr 1
        apply listed_congr
        intro e _
        simp only [setBudget, setRing, update_apply]
        split <;> rfl
      have hbooks := h.books q hq
      have hcharged : ((s.setRing a flow).setBudget q budget).budgets q = budget :=
        update_self _ _ _
      rw [hcharged]
      apply add_right_cancel (b := (s.rings a).owes + pending q)
      calc budget.charged + ((s.rings a).owes + pending q)
          = (s.budgets q).charged + flow.owes + pending' q := by rw [← haccount]; abel
        _ = (s.flowsOwe q + flow.owes) + s.transfersOwe q + s.announced q • announceCharge +
            pending q + pending' q := by rw [hbooks]; abel
        _ = _ := by
            rw [← hflows]
            change _ = _ + s.transfersOwe q + s.announced q • announceCharge + pending' q + _
            abel
    · have hflows : ((s.setRing a flow).setBudget p budget).flowsOwe q = s.flowsOwe q := by
        refine flowsOwe_congr (s := s) rfl ?_
        intro b hb
        exact update_of_ne (h.ne_of_listed ha hb hqp) _ _
      have hcharged : ((s.setRing a flow).setBudget p budget).budgets q = s.budgets q :=
        update_of_ne hqp _ _
      rw [hcharged, hflows, hother q hqp]
      exact h.books q hq

theorem Inv.rebudget (h : Inv pending s) (p : ℕ)
    (hwidth : budget.congestionBudget < 2 ^ 32) (hother : ∀ q, q ≠ p → pending' q = pending q)
    (haccount : s.table.peers p ≠ none →
      budget.charged + pending p = (s.budgets p).charged + pending' p) :
    Inv pending' (s.setBudget p budget) where
  __ := h
  width := all_update (P := fun b : PeerBudget => b.congestionBudget < 2 ^ 32) hwidth h.width p
  books := by
    intro q hq
    have hbooks := h.books q hq
    by_cases hqp : q = p
    · subst hqp
      have hcharged : (s.setBudget q budget).budgets q = budget := update_self _ _ _
      rw [hcharged]
      apply add_right_cancel (b := pending q)
      rw [haccount hq, hbooks]
      change _ = s.flowsOwe q + s.transfersOwe q + s.announced q • announceCharge + pending' q + _
      abel
    · have hcharged : (s.setBudget p budget).budgets q = s.budgets q :=
        update_of_ne hqp _ _
      rw [hcharged, hother q hqp]
      exact hbooks

theorem setBudget_self (s : Accounts) (p : ℕ) : s.setBudget p (s.budgets p) = s := by
  rw [setBudget, update_eq_self]

theorem setRing_setRing (s : Accounts) (a : ℕ) (flow flow' : OutAssociation) :
    (s.setRing a flow).setRing a flow' = s.setRing a flow' := by
  simp only [setRing, update_idem]

theorem Inv.resettle (h : Inv (due p amount) s)
    (ha : a ∈ (s.table.dirs p).map FlowDirEntry.assocSlot)
    (hflow : flow.Weighed) {amount' : ℕ × ℕ}
    (haccount : flow.owes + amount' = (s.rings a).owes + amount) :
    Inv (due p amount') (s.setRing a flow) := by
  have hsettled : Inv (due p amount') ((s.setRing a flow).setBudget p (s.budgets p)) :=
    h.exchange ha hflow (h.width p) (fun q hq => by rw [due_of_ne hq, due_of_ne hq])
      (by rw [due_self, due_self, add_assoc, add_assoc, haccount])
  have hsame : (s.setRing a flow).setBudget p (s.budgets p) = s.setRing a flow :=
    setBudget_self (s.setRing a flow) p
  rw [hsame] at hsettled
  exact hsettled

theorem Balanced.due (h : Balanced s) (p : ℕ) : Inv (due p 0) s := by
  rw [due_zero]
  exact h

theorem Inv.setRing_of_owes (h : Inv pending s) (hflow : flow.Weighed)
    (howes : flow.owes = (s.rings a).owes) : Inv pending (s.setRing a flow) where
  __ := h
  weighed := all_update (P := OutAssociation.Weighed) hflow h.weighed a
  books := by
    intro p hp
    have hflows : (s.setRing a flow).flowsOwe p = s.flowsOwe p := by
      apply listed_congr
      intro e _
      simp only [setRing, update_apply]
      split
      · next heq => rw [howes, heq]
      · rfl
    rw [hflows]
    exact h.books p hp

theorem charged_refund {peer : PeerBudget} {rest : ℕ × ℕ} (h : peer.charged = rest + amount) :
    (refund peer amount).charged = rest := by
  have hbytes : peer.bytesInFlight = rest.1 + amount.1 := congrArg Prod.fst h
  have hpackets : peer.outstandingToPeer = rest.2 + amount.2 := congrArg Prod.snd h
  apply Prod.ext
  · change peer.bytesInFlight - amount.1 = rest.1
    omega
  · change peer.outstandingToPeer - amount.2 = rest.2
    omega

theorem u32_lt (n : ℕ) : u32 n < 2 ^ 32 := Nat.mod_lt n (by decide)

theorem Inv.settle (h : Inv (due p amount) s) {peer : PeerBudget}
    (hsame : peer.charged = (s.budgets p).charged)
    (hbudget : budget.charged = (refund peer amount).charged)
    (hwidth : budget.congestionBudget < 2 ^ 32) : Balanced (s.setBudget p budget) := by
  apply h.rebudget p hwidth
  · intro q hq
    rw [due_of_ne hq]
    rfl
  · intro hp
    have hbooks := h.books p hp
    rw [due_self] at hbooks
    rw [hbudget, charged_refund (hsame.trans hbooks), hbooks, due_self]
    exact (add_zero _).symm

theorem Inv.table (h : Inv pending s) (hsound : t.Sound)
    (hdirs : t.dirs = s.table.dirs)
    (hpeers : ∀ p, t.peers p = none ↔ s.table.peers p = none) : Inv pending { s with table := t } where
  __ := h
  sound := hsound
  books := by
    intro p hp
    have hflows : flowsOwe { s with table := t } p = s.flowsOwe p :=
      flowsOwe_congr (s := s) (congrFun hdirs p) fun _ _ => rfl
    rw [hflows]
    exact h.books p (mt (hpeers p).mpr hp)
  vacant := fun p hp => h.vacant p ((hpeers p).mp hp)

/-! ## Peers come and go -/

theorem Balanced.registerPeer (h : Balanced s) (slot : ℕ) (addr : Address) (id : Option BcpId) :
    Balanced (s.registerPeer slot addr id) := by
  have hsound := h.sound.registerPeer slot addr id
  rw [Accounts.registerPeer]
  by_cases hfree : slot < s.table.maxPeers ∧ s.table.peers slot = none ∧
      s.table.peerAt addr = none ∧ id.bind s.table.peerWithId = none
  · have htable : s.table.registerPeer slot addr id =
        { s.table with peers := update s.table.peers slot (some ⟨addr, id⟩) } :=
      if_pos hfree
    have hnone := hfree.2.1
    have hpeers : ∀ q, q ≠ slot →
        (s.table.registerPeer slot addr id).peers q = s.table.peers q := by
      intro q hq
      rw [htable]
      exact update_of_ne hq _ _
    have hself : (s.table.registerPeer slot addr id).peers slot = some ⟨addr, id⟩ := by
      rw [htable]
      exact update_self _ _ _
    have hdirs : (s.table.registerPeer slot addr id).dirs = s.table.dirs := by rw [htable]
    rw [if_pos ⟨hnone, by rw [hself]; rfl⟩]
    refine ⟨hsound, h.transfers, h.weighed, h.tallied, ?_, ?_, ?_⟩
    · exact all_update (P := fun b : PeerBudget => b.congestionBudget < 2 ^ 32) (by decide) h.width slot
    · intro q hq
      by_cases hqs : q = slot
      · subst hqs
        -- the slot was free: nothing is listed under it
        have hflows : s.flowsOwe q = 0 := by
          rw [flowsOwe, h.dirs_of_vacant hnone]
          rfl
        have htransfers : s.transfersOwe q = 0 := by
          rw [transfersOwe, Side.owes, h.vacant q hnone]
          rfl
        rw [flowsOwe] at hflows
        rw [transfersOwe] at htransfers
        rw [flowsOwe, transfersOwe]
        dsimp only
        rw [hdirs, hflows, htransfers, update_self, update_self]
        rfl
      · have hold := h.books q (by rw [← hpeers q hqs]; exact hq)
        rw [flowsOwe, transfersOwe] at hold ⊢
        dsimp only
        rw [hdirs, update_of_ne hqs, update_of_ne hqs]
        exact hold
    · intro q hq
      apply h.vacant q
      by_cases hqs : q = slot
      · rw [hqs]
        exact hnone
      · rw [← hpeers q hqs]
        exact hq
  · have htable : s.table.registerPeer slot addr id = s.table := if_neg hfree
    rw [htable, if_neg]
    · exact h
    · rintro ⟨hnone, hsome⟩
      rw [hnone] at hsome
      cases hsome

variable {slot : ℕ}

theorem Inv.setPeer (h : Inv pending s) {old : Flow.Endpoint}
    (hold : s.table.peers slot = some old) {new : Flow.Endpoint}
    (hsound : AssocTable.Sound
      { s.table with peers := update s.table.peers slot (some new) }) :
    Inv pending { s with table :=
      { s.table with peers := update s.table.peers slot (some new) } } := by
  refine h.table hsound rfl ?_
  intro q
  dsimp only
  rw [update_apply]
  split
  · next heq =>
    rw [heq, hold]
    simp
  · exact Iff.rfl

theorem Balanced.bindId (h : Balanced s) (slot : ℕ) (id : BcpId) :
    Balanced { s with table := s.table.bindId slot id } := by
  have hsound := h.sound.bindId slot id
  unfold AssocTable.bindId at hsound ⊢
  split at hsound
  · next addr hslot =>
    split at hsound
    · next hnew =>
      rw [if_pos hnew]
      exact Inv.setPeer h hslot hsound
    · next hknown =>
      rw [if_neg hknown]
      exact h
  · exact h

theorem Balanced.updateAddress (h : Balanced s) (slot : ℕ) (addr : Address) :
    Balanced { s with table := s.table.updateAddress slot addr } := by
  have hsound := h.sound.updateAddress slot addr
  unfold AssocTable.updateAddress at hsound ⊢
  cases hslot : s.table.peers slot with
  | none => exact h
  | some old =>
    rw [hslot] at hsound
    dsimp only at hsound ⊢
    split at hsound
    · next hnew =>
      rw [if_pos hnew]
      exact Inv.setPeer h hslot hsound
    · next hknown =>
      rw [if_neg hknown]
      exact h

theorem freeAssoc_dirs (t : AssocTable) (a : ℕ) : (t.freeAssoc a).dirs = t.dirs := by
  rw [freeAssoc, unlinkFromOwner]
  split
  · rfl
  · rw [unlinkAssociation]
    split <;> rfl

theorem sweepDir_dirs_of_ne (hq : q ≠ p) (turns : ℕ) (t : AssocTable) :
    (sweepDir p turns t).dirs q = t.dirs q := by
  induction turns generalizing t with
  | zero => rfl
  | succ turns ih =>
    rw [sweepDir]
    split
    · rfl
    · rw [ih, freeAssoc_dirs]
      exact update_of_ne hq _ _

theorem Balanced.removePeer (h : Balanced s) (addr : Address)
    (hok : ∀ p ∈ s.table.peerAt addr, ∀ i ∈ s.transfers.sentSlots,
      (s.transfers.outbound.records i).peerSlot ≠ p) :
    Balanced (s.removePeer addr) := by
  have hsound := h.sound.removePeer addr
  unfold Accounts.removePeer
  cases hat : s.table.peerAt addr with
  | none => exact h
  | some p =>
    obtain ⟨-, hpeers, -⟩ := h.sound.sweepDir p (s.table.dirs p).length
    have htable : s.table.removePeer addr =
        { AssocTable.sweepDir p (s.table.dirs p).length s.table with
          peers := update
            (AssocTable.sweepDir p (s.table.dirs p).length s.table).peers p none } := by
      rw [AssocTable.removePeer, hat]
    have hdirs : ∀ q, q ≠ p → (s.table.removePeer addr).dirs q = s.table.dirs q := by
      intro q hq
      rw [htable]
      exact sweepDir_dirs_of_ne hq _ _
    have hgone : (s.table.removePeer addr).peers p = none := by
      rw [htable]
      exact update_self _ _ _
    have hstay : ∀ q, q ≠ p → (s.table.removePeer addr).peers q = s.table.peers q := by
      intro q hq
      rw [htable, hpeers]
      exact update_of_ne hq _ _
    obtain ⟨hempty, hother, hrecords⟩ := h.transfers.outbound.sweep_entries p .blank
    refine ⟨hsound, h.transfers.sweepPeer (hok p hat), ?_, ?_, h.width, ?_, ?_⟩
    · intro b
      dsimp only
      split
      · exact (h.weighed b).tearDown .closed
      · exact h.weighed b
    · intro i
      rcases s.transfers.outbound.sweep_record p .blank i with hkept | hblank
      · exact hkept ▸ h.tallied i
      · exact hblank ▸ OutTransfer.tallied_start ..
    · intro q hq
      have hqp : q ≠ p := by
        rintro rfl
        exact hq hgone
      have hflows : flowsOwe { s with
          table := s.table.removePeer addr
          rings := fun a => if a ∈ (s.table.dirs p).map FlowDirEntry.assocSlot
            then (s.rings a).tearDown .closed else s.rings a
          transfers := s.transfers.sweepPeer p } q = s.flowsOwe q := by
        apply flowsOwe_congr (hdirs q hqp)
        intro b hb
        exact if_neg fun hb' => h.ne_of_listed hb' hb hqp rfl
      have htransfers : (s.transfers.sweepPeer p).outbound.owes q = s.transfers.outbound.owes q := by
        apply Side.owes_congr (hother q hqp)
        intro i hi
        exact hrecords i fun hi' => h.transfers.outbound.unlisted hi' hqp hi
      rw [hflows, transfersOwe]
      rw [htransfers]
      exact h.books q (by rw [← hstay q hqp]; exact hq)
    · intro q hq
      by_cases hqp : q = p
      · subst hqp
        exact hempty
      · refine (hother q hqp).trans (h.vacant q ?_)
        rw [← hstay q hqp]
        exact hq

/-! ## Associations -/

theorem Balanced.openFlow (h : Balanced s) (flowId slot : ℕ) :
    Balanced { s with table := s.table.openFlow flowId slot } := by
  apply Inv.table h (h.sound.openFlow flowId slot)
  · unfold AssocTable.openFlow
    split <;> rfl
  · intro q
    unfold AssocTable.openFlow
    split <;> exact Iff.rfl

theorem Balanced.clearEmitting (h : Balanced s) (a : ℕ) :
    Balanced { s with table := s.table.clearEmitting a } := by
  have hframe : (s.table.clearEmitting a).dirs = s.table.dirs ∧
      (s.table.clearEmitting a).peers = s.table.peers := by
    unfold AssocTable.clearEmitting
    split_ifs <;> exact ⟨rfl, rfl⟩
  apply Inv.table h (h.sound.clearEmitting a) hframe.1
  intro q
  rw [hframe.2]

theorem Inv.tableFailAssoc (h : Inv pending s) (a : ℕ) (recorded : Bool) :
    Inv pending { s with table := s.table.failAssoc a recorded } := by
  apply h.table (h.sound.failAssoc a recorded)
  · unfold AssocTable.failAssoc
    split <;> rfl
  · intro q
    unfold AssocTable.failAssoc
    split <;> exact Iff.rfl

theorem failAssoc_dirs (t : AssocTable) (a : ℕ) (recorded : Bool) :
    (t.failAssoc a recorded).dirs = t.dirs := by
  unfold AssocTable.failAssoc
  split <;> rfl

theorem Balanced.failAssoc (h : Balanced s)
    (ha : a ∈ (s.table.dirs p).map FlowDirEntry.assocSlot) (recorded : Bool) :
    Balanced (s.failAssoc p a recorded) := by
  rw [Accounts.failAssoc]
  split
  · have hfailed := Inv.tableFailAssoc (h.due p) a recorded
    have hdrained : Inv (Accounts.due p (s.rings a).owes)
        ({ s with table := s.table.failAssoc a recorded }.setRing a
          ((s.rings a).tearDown .failed)) := by
      apply hfailed.resettle
      · dsimp only
        rw [failAssoc_dirs]
        exact ha
      · exact (h.weighed a).tearDown .failed
      · rw [OutAssociation.owes_tearDown, add_comm]
    dsimp only
    split
    · next hzero =>
      have hle := (h.weighed a).owes_le
      have hnone : (s.rings a).owes = 0 := Prod.ext hzero (Nat.le_zero.mp (hzero ▸ hle))
      rw [hnone, due_zero] at hdrained
      exact hdrained
    · exact hdrained.settle rfl rfl (h.width p)
  · exact h

theorem Balanced.flowReject (h : Balanced s) (p flowId : ℕ) (flowEpoch : UInt8) (recorded : Bool) :
    Balanced (s.flowReject p flowId flowEpoch recorded) := by
  unfold Accounts.flowReject
  split
  · next a _ hfind =>
    split
    · exact h.failAssoc (mem_of_findOutAssoc hfind) recorded
    · exact h
  · exact h

theorem Balanced.drainWaiting (h : Balanced s) (p index candidateEpoch candidateSlot now : ℕ) :
    Balanced (s.drainWaiting p index candidateEpoch candidateSlot now) := by
  unfold Accounts.drainWaiting
  split
  · next e hpeer hindex =>
    have hp : s.table.peers p ≠ none := by
      rw [hpeer]
      exact Option.some_ne_none _
    have hspends := OutAssociation.claimWaiting_spends (h.weighed e.assocSlot) (h.roomy hp)
      candidateEpoch candidateSlot now
    apply Inv.exchange h (mem_of_index hindex) hspends.weighed
    · rw [hspends.budget]
      exact h.width p
    · exact fun _ _ => rfl
    · exact congrArg (· + 0) hspends.account
  · exact h

theorem Inv.ackEntry (timers : FlowTimers) (now : ℕ) {acc : Accounts × CongestionDelta}
    (h : Inv (due p acc.2.resolved) acc.1) (ack : AckEntry) :
    Inv (due p (Accounts.ackEntry timers p now acc ack).2.resolved)
      (Accounts.ackEntry timers p now acc ack).1 := by
  unfold Accounts.ackEntry
  split
  · exact h
  · next a hfind =>
    have hwalk := (acc.1.rings a).applyAck_walks timers (acc.1.budgets p).rtt ack now acc.2
    exact h.resettle (mem_of_findOutAssoc hfind) (hwalk.weighed (h.weighed a))
      (hwalk.account (h.weighed a).cap)

theorem Balanced.flowAck (h : Balanced s) (timers : FlowTimers) (p : ℕ) (acks : List AckEntry)
    (now : ℕ) (next : PeerBudget) : Balanced (s.flowAck timers p acks now next) := by
  have hfold : ∀ acc : Accounts × CongestionDelta, Inv (Accounts.due p acc.2.resolved) acc.1 →
      Inv (Accounts.due p (acks.foldl (Accounts.ackEntry timers p now) acc).2.resolved)
        (acks.foldl (Accounts.ackEntry timers p now) acc).1 := by
    induction acks with
    | nil => exact fun _ hacc => hacc
    | cons ack acks ih => exact fun acc hacc => ih _ (hacc.ackEntry timers now ack)
  rw [Accounts.flowAck]
  split
  · exact h
  · exact (hfold (s, .zero) (h.due p)).settle rfl rfl (u32_lt next.congestionBudget)

theorem Balanced.updateOutFlow (h : Balanced s) (timers : FlowTimers) (p index now : ℕ)
    (recorded : Bool) (next : PeerBudget) :
    Balanced (s.updateOutFlow timers p index now recorded next) := by
  unfold Accounts.updateOutFlow
  split
  · next e _ hindex =>
    have ha := mem_of_index hindex
    have hweighed := h.weighed e.assocSlot
    have hwalk := (s.rings e.assocSlot).retransmitInflight_walks timers (s.budgets p) now .zero
    have hpeer := OutAssociation.retransmitInflight_peer timers (s.rings e.assocSlot)
      (s.budgets p) now .zero
    have hring := (h.due p).resettle ha (hwalk.weighed hweighed) (hwalk.account hweighed.cap)
    dsimp only
    split
    · split
      · exact h.failAssoc ha recorded
      · split
        · exact hring.settle hpeer.1 rfl (u32_lt next.congestionBudget)
        · next hquiet =>
          -- no bytes were resolved, so no packets were
          have hbytes : ((s.rings e.assocSlot).retransmitInflight timers (s.budgets p) now
              .zero).delta.resolvedBytes = 0 := by
            by_contra hne
            exact hquiet (by simp [hne])
          have hnone := OutAssociation.retransmitInflight_packets timers hweighed (s.budgets p) now
            hbytes
          refine hring.settle hpeer.1 ?_ (hpeer.2 ▸ h.width p)
          rw [hnone]
          rfl
    · exact h
  · exact h

theorem Balanced.refundResends (h : Balanced s) (a : ℕ) (seqs : List ℕ) :
    Balanced (s.setRing a ((s.rings a).refundResendAttempts seqs)) := by
  have hwalk := (s.rings a).refundResendAttempts_walks seqs (fun _ => False) 0
  apply Inv.setRing_of_owes h (hwalk.weighed (h.weighed a))
  simpa using hwalk.account (h.weighed a).cap

theorem Balanced.tune (h : Balanced s) (p : ℕ) (next : PeerBudget) :
    Balanced (s.setBudget p (retune (s.budgets p) next)) :=
  Inv.rebudget h p (u32_lt next.congestionBudget) (fun _ _ => rfl) (fun _ => rfl)

/-! ## Creating an association -/

theorem admitOut_cases (t : AssocTable) (p flowId : ℕ) (acquired : Option ℕ) :
    ((t.admitOut p flowId acquired).dirs = t.dirs ∧
        (t.admitOut p flowId acquired).peers = t.peers) ∨
      ∃ a assoc f, t.admitOut p flowId acquired = t.publish a assoc f ∧ t.leased a = false ∧
        assoc.peerSlot = p ∧ assoc.flowId = flowId ∧ t.findOutAssoc p flowId = none := by
  unfold admitOut
  split
  · next peer hpeer hfind =>
    unfold createAssociation
    split
    · next f a hflow =>
      split
      · exact .inl ⟨rfl, rfl⟩
      · next hfree =>
        rw [not_or, Bool.not_eq_true] at hfree
        split
        · exact .inr ⟨a, _, f, rfl, hfree.2, rfl, rfl, hfind⟩
        · exact .inl ⟨rfl, rfl⟩
    · exact .inl ⟨rfl, rfl⟩
  · exact .inl ⟨rfl, rfl⟩

theorem findOutAssoc_congr {t' : AssocTable} (hdirs : t'.dirs = t.dirs) (p flowId : ℕ) :
    t'.findOutAssoc p flowId = t.findOutAssoc p flowId := by
  rw [findOutAssoc, findOutAssoc, hdirs]

theorem publish_dirs (t : AssocTable) (a : ℕ) (assoc : AssocRecord) (f : ℕ) :
    (t.publish a assoc f).dirs assoc.peerSlot =
      t.dirs assoc.peerSlot ++ [⟨assoc.flowId, a⟩] := update_self _ _ _

theorem findOutAssoc_publish {assoc : AssocRecord}
    (hfind : t.findOutAssoc assoc.peerSlot assoc.flowId = none) (a f : ℕ) :
    (t.publish a assoc f).findOutAssoc assoc.peerSlot assoc.flowId = some a := by
  rw [findOutAssoc, Option.map_eq_none_iff] at hfind
  rw [findOutAssoc, publish_dirs, List.find?_append, hfind]
  simp

theorem Balanced.publish (h : Balanced s) {assoc : AssocRecord} {f : ℕ}
    (hsound : (s.table.publish a assoc f).Sound) (hfree : s.table.leased a = false)
    (hflow : flow.Weighed) (hempty : flow.owes = 0) :
    Balanced ({ s with table := s.table.publish a assoc f }.setRing a flow) where
  __ := h
  sound := hsound
  weighed := all_update (P := OutAssociation.Weighed) hflow h.weighed a
  books := by
    intro q hq
    have hold : ∀ e ∈ s.table.dirs q,
        (update s.rings a flow e.assocSlot).owes = (s.rings e.assocSlot).owes := by
      intro e he
      rw [update_of_ne]
      rintro rfl
      have hlive := (h.peer_of_listed (List.mem_map_of_mem he)).1.1
      rw [hfree] at hlive
      cases hlive
    have hflows : flowsOwe ({ s with table := s.table.publish a assoc f }.setRing a flow) q =
        s.flowsOwe q := by
      by_cases hqp : q = assoc.peerSlot
      · subst hqp
        simp only [flowsOwe, setRing, publish_dirs]
        rw [listed_concat, update_self, hempty, add_zero]
        apply listed_congr
        exact hold
      · simp only [flowsOwe, setRing, AssocTable.publish, update_of_ne hqp]
        apply listed_congr
        exact hold
    rw [hflows]
    exact h.books q hq

theorem Balanced.send (h : Balanced s) (p flowId : ℕ) (acquired : Option ℕ) (post : Posting) :
    Balanced (s.send p flowId acquired post) := by
  have hsound := h.sound.admitOut p flowId acquired
  rw [Accounts.send]
  by_cases hrefused : s.table.peers p = none ∨ post.packet.length < post.packet.headSize
  · rw [if_pos hrefused]
    exact h
  rw [if_neg hrefused]
  rw [not_or, Nat.not_lt] at hrefused
  obtain ⟨hp, hlength⟩ := hrefused
  have hsize : 0 < post.packet.length := by
    refine Nat.lt_of_lt_of_le ?_ hlength
    rw [Datagram.headSize]
    omega
  dsimp only
  rcases admitOut_cases s.table p flowId acquired with
    ⟨hdirs, hpeers⟩ | ⟨a, assoc, f, htable, hfree, rfl, rfl, hnone⟩
  · have htable : Balanced { s with table := s.table.admitOut p flowId acquired } :=
      Inv.table h hsound hdirs fun q => by rw [hpeers]
    rw [findOutAssoc_congr hdirs]
    cases hfind : s.table.findOutAssoc p flowId with
    | none => exact htable
    | some a =>
      have hring : s.ringFor p flowId a post = s.rings a := by
        rw [ringFor, hfind]
      have hspends := OutAssociation.admitOut_spends (h.weighed a) (h.roomy hp) hsize
        post.packetSlot post.flying post.now
      dsimp only
      rw [hring]
      apply Inv.exchange htable
      · rw [hdirs]
        exact mem_of_findOutAssoc hfind
      · exact hspends.weighed
      · rw [hspends.budget]
        exact h.width p
      · exact fun _ _ => rfl
      · exact congrArg (· + 0) hspends.account
  · rw [htable] at hsound ⊢
    rw [findOutAssoc_publish hnone]
    have hring : s.ringFor assoc.peerSlot assoc.flowId a post =
        resetOutAssoc (s.rings a).epoch ⟨assoc.peerSlot, ⟨[], 0, 0⟩, ⟨[]⟩, assoc.flowId, post.mode,
          post.flowEpoch, post.waitingCap⟩ post.now := by
      rw [ringFor, hnone]
    have hweighed : (s.ringFor assoc.peerSlot assoc.flowId a post).Weighed := by
      rw [hring]
      exact OutAssociation.weighed_reset ..
    have howes : (s.ringFor assoc.peerSlot assoc.flowId a post).owes = 0 := by
      rw [hring]
      exact OutAssociation.owes_reset ..
    dsimp only
    generalize s.ringFor assoc.peerSlot assoc.flowId a post = fresh at hweighed howes ⊢
    have hspends := OutAssociation.admitOut_spends hweighed (h.roomy hp) hsize post.packetSlot
      post.flying post.now
    have hself : ({ s with table := s.table.publish a assoc f }.setRing a fresh).rings a = fresh :=
      update_self _ _ _
    have hpublished := h.publish hsound hfree hweighed howes
    rw [← setRing_setRing _ a fresh]
    apply Inv.exchange hpublished
    · exact mem_of_findOutAssoc (findOutAssoc_publish hnone a f)
    · exact hspends.weighed
    · rw [hspends.budget]
      exact h.width assoc.peerSlot
    · exact fun _ _ => rfl
    · rw [hself]
      exact congrArg (· + 0) hspends.account

/-! ## Closing a flow -/

theorem closeAssocs_table (f turns : ℕ) (s : Accounts) :
    (closeAssocs f turns s).table = AssocTable.closeAssocs f turns s.table := by
  induction turns generalizing s with
  | zero => rfl
  | succ turns ih =>
    rw [Accounts.closeAssocs, AssocTable.closeAssocs]
    cases (s.table.flows f).assocs with
    | nil => rfl
    | cons a rest =>
      have hfreed : (s.closeAssoc a).table = s.table.closeAssoc a := by
        rw [Accounts.closeAssoc]
        split <;> rfl
      rw [ih, hfreed]

theorem Balanced.closeAssoc (h : Balanced s) {f : ℕ} (hmem : a ∈ (s.table.flows f).assocs)
    (hreach : s.table.Reachable a) :
    Balanced (s.closeAssoc a) ∧ (s.closeAssoc a).table = s.table.without a f := by
  obtain ⟨hlive, hslot, -⟩ := h.sound.links f a hmem
  obtain ⟨g, hg, hgone, hsound⟩ := h.sound.retire hlive
  obtain rfl : f = g := Option.some.inj (hslot.symm.trans hg)
  have howner := h.sound.ownerOf_eq hlive hreach
  have htable : s.table.closeAssoc a = s.table.without a f := by
    rw [AssocTable.closeAssoc, howner]
    exact hgone
  have hlisted : a ∈ (s.table.dirs (s.table.assocs a).peerSlot).map FlowDirEntry.assocSlot :=
    List.mem_map_of_mem (h.sound.listed a hlive)
  have hfreed : Inv (Accounts.due (s.table.assocs a).peerSlot (s.rings a).owes)
      ({ s with table := s.table.closeAssoc a }.setRing a ((s.rings a).tearDown .closed)) := by
    refine ⟨htable ▸ hsound, h.transfers, ?_, h.tallied, h.width, ?_, ?_⟩
    · exact all_update (P := OutAssociation.Weighed) ((h.weighed a).tearDown .closed) h.weighed a
    · intro q hq
      have hbooks := h.books q (by rw [htable] at hq; exact hq)
      by_cases hqp : q = (s.table.assocs a).peerSlot
      · subst hqp
        have hflows : flowsOwe ({ s with table := s.table.closeAssoc a }.setRing a
              ((s.rings a).tearDown .closed)) (s.table.assocs a).peerSlot + (s.rings a).owes =
            s.flowsOwe (s.table.assocs a).peerSlot := by
          have herase := listed_eraseP (f := fun a => (s.rings a).owes) (h.sound.entries_nodup _)
            hlisted
          refine Eq.trans ?_ herase
          congr 1
          simp only [flowsOwe, setRing, htable, AssocTable.without, update_self]
          apply listed_congr
          intro e he
          have hne := ((AssocTable.mem_eraseP_key (h.sound.entries_nodup _) e).mp he).2
          rw [update_of_ne hne]
        rw [due_self]
        refine hbooks.trans ?_
        rw [← hflows]
        abel
      · have hflows : flowsOwe ({ s with table := s.table.closeAssoc a }.setRing a
            ((s.rings a).tearDown .closed)) q = s.flowsOwe q := by
          refine flowsOwe_congr (s := s) ?_ ?_
          · simp only [setRing, htable, AssocTable.without, update_of_ne hqp]
          · intro b hb
            exact update_of_ne (h.ne_of_listed hlisted hb hqp) _ _
        rw [hflows, due_of_ne hqp]
        exact hbooks
    · intro q hq
      rw [htable] at hq
      exact h.vacant q hq
  rw [Accounts.closeAssoc, howner]
  exact ⟨hfreed.settle rfl rfl (h.width _), htable⟩

theorem Balanced.closeAssocs (f turns : ℕ) (h : Balanced s)
    (hreach : ∀ a ∈ (s.table.flows f).assocs, s.table.Reachable a) :
    Balanced (closeAssocs f turns s) := by
  induction turns generalizing s with
  | zero => exact h
  | succ turns ih =>
    rw [Accounts.closeAssocs]
    split
    · exact h
    · next a rest hcons =>
      have hmem : a ∈ (s.table.flows f).assocs := by simp [hcons]
      obtain ⟨hclosed, htable⟩ := h.closeAssoc hmem (hreach a hmem)
      apply ih hclosed
      rw [htable]
      intro b hb
      obtain ⟨hmem', hother⟩ := (h.sound.mem_without_links a f f b).mp hb
      rw [AssocTable.Reachable, without_assoc s.table f (hother rfl)]
      exact hreach b hmem'

theorem Balanced.closeFlow (h : Balanced s) (f : ℕ)
    (hreach : s.table.ClosesReachable (.closeFlow f)) : Balanced (s.closeFlow f) := by
  have hsound := h.sound.closeFlow f hreach
  rw [Accounts.closeFlow]
  rw [AssocTable.closeFlow] at hsound
  split
  · next hopen =>
    rw [if_pos hopen] at hsound
    have hclosing : Balanced
        { s with table := s.table.setFlow f { s.table.flows f with life := .closing } } :=
      Inv.table h (h.sound.setFlow f rfl (.inl rfl)) rfl fun _ => Iff.rfl
    have hclosed := hclosing.closeAssocs f
      ((s.table.setFlow f { s.table.flows f with life := .closing }).flows f).assocs.length (by
        intro a ha
        simp only [AssocTable.setFlow, update_self] at ha
        exact hreach a ha)
    refine Inv.table hclosed ?_ rfl fun _ => Iff.rfl
    rw [closeAssocs_table]
    exact hsound
  · exact h

/-! ## Transfers -/

theorem mem_of_peerAt {addr : Address} (hat : t.peerAt addr = some p) :
    t.peers p ≠ none := by
  intro hnone
  have hfound := List.find?_some hat
  rw [hnone] at hfound
  simp at hfound

theorem Balanced.sendTransfer (h : Balanced s) (addr : Address) (transferId : ℕ)
    (buffer : Option (ℕ → UInt8)) (length hint : ℕ) :
    Balanced (s.sendTransfer addr transferId buffer length hint) := by
  unfold Accounts.sendTransfer
  cases hat : s.table.peerAt addr with
  | none => exact h
  | some p =>
    have hinv := h.transfers.beginSend p addr transferId buffer length hint
    dsimp only
    rcases s.transfers.beginSend_cases p addr transferId buffer length hint with
      ⟨hsame, -⟩ | ⟨source, -, hcount, -, -, hwithin, -, -, hclaim⟩
    · rw [hsame]
      exact h
    rw [hclaim] at hinv ⊢
    rcases h.transfers.outbound.claim_cases hcount p transferId
        (OutTransfer.start p addr transferId source length) hint rfl hwithin with
      ⟨hsame, -⟩ | ⟨slot, i, pool, hlease, hfree, -, hrow, -⟩
    · rw [hsame]
      exact h
    rw [hlease] at hinv ⊢
    refine ⟨h.sound, hinv, h.weighed, ?_, h.width, ?_, ?_⟩
    · exact all_update (P := OutTransfer.Tallied) (OutTransfer.tallied_start ..) h.tallied _
    · intro q hq
      have howes := h.transfers.outbound.owes_lease hfree hrow
        (OutTransfer.owes_start p addr transferId source length) pool transferId q
      rw [transfersOwe]
      rw [howes]
      exact h.books q hq
    · intro q hq
      have hqp : q ≠ p := by
        rintro rfl
        exact mem_of_peerAt hat hq
      exact (Side.lease_entries_of_ne _ pool slot i transferId _ hqp).trans (h.vacant q hq)

/-- One sending transfer and the budget of its peer change together, with announcements that
are charged and not owed. -/
theorem Balanced.restore (h : Balanced s)
    (hslot : slot ∈ (s.transfers.outbound.entries p).map DirEntry.slot) {t : Table} (ht : t.Sending)
    {out : OutTransfer} (hout : t.outbound = s.transfers.outbound.store slot out)
    (htallied : out.Tallied) (hwidth : budget.congestionBudget < 2 ^ 32)
    {n : ℕ} {announced : ℕ → ℕ} (hself : announced p = s.announced p + n)
    (hother : ∀ q, q ≠ p → announced q = s.announced q)
    (haccount : budget.charged + (s.transfers.outbound.records slot).owes =
      (s.budgets p).charged + out.owes + n • announceCharge) :
    Balanced { s with
      transfers := t
      budgets := update s.budgets p budget
      announced := announced } := by
  obtain ⟨hrow, hrows⟩ := h.transfers.outbound.owes_store hslot out
  refine ⟨h.sound, ht, h.weighed, ?_, ?_, ?_, ?_⟩
  · rw [hout]
    exact all_update (P := OutTransfer.Tallied) htallied h.tallied slot
  · exact all_update (P := fun b : PeerBudget => b.congestionBudget < 2 ^ 32) hwidth h.width p
  · intro q hq
    have hbooks := h.books q hq
    rw [flowsOwe, transfersOwe] at hbooks ⊢
    dsimp only
    rw [hout]
    by_cases hqp : q = p
    · subst hqp
      rw [update_self, hself]
      apply add_right_cancel (b := (s.transfers.outbound.records slot).owes)
      rw [haccount, hbooks, add_nsmul]
      calc _ = listed FlowDirEntry.assocSlot (fun a => (s.rings a).owes) (s.table.dirs q) +
            (s.transfers.outbound.owes q + out.owes) +
            (s.announced q • announceCharge + n • announceCharge) + (0 : ℕ → ℕ × ℕ) q := by abel
        _ = _ := by
            rw [← hrow]
            abel
    · rw [update_of_ne hqp, hother q hqp, hrows q hqp]
      exact hbooks
  · intro q hq
    rw [hout]
    exact h.vacant q hq

theorem push_outbound (t : Table) (slot : ℕ) (incoming : Bool) (outcome : Error) :
    (t.push slot incoming outcome).outbound = t.outbound := by
  rw [Table.push]
  split <;> rfl

theorem settleSend_outbound (t : Table) (slot : ℕ) (out : OutTransfer) (ends : Bool)
    (outcome : Error) : (t.settleSend slot out ends outcome).outbound = t.outbound.store slot out := by
  rw [Table.settleSend]
  split
  · exact push_outbound ..
  · rfl

theorem Balanced.transferPass (h : Balanced s) (p transferId queued : ℕ) (times : Intervals)
    {now : ℕ} (hnow : 0 < now) : Balanced (s.transferPass p transferId queued times now) := by
  unfold Accounts.transferPass
  split
  · next slot hpeer hfind =>
    obtain ⟨htallied, haccount⟩ := Turn.run_accounted (h.tallied slot) hnow (s.budgets p) queued times
    apply h.restore (Side.listed_of_find hfind)
      (h.transfers.rewrites (Table.pass_rewrites p transferId (s.budgets p) queued times now)) _
      htallied
    · rw [Turn.run_budget]
      exact h.width p
    · exact update_self _ _ _
    · exact fun q hq => update_of_ne hq _ _
    · exact haccount
    · rw [Table.pass, hfind]
  · exact h

theorem Balanced.giveBack (h : Balanced s) (hp : s.table.peers p ≠ none)
    (hslot : slot ∈ (s.transfers.outbound.entries p).map DirEntry.slot) {t : Table} (ht : t.Sending)
    {out : OutTransfer} (hout : t.outbound = s.transfers.outbound.store slot out)
    (htallied : out.Tallied) (howes : out.owes + amount = (s.transfers.outbound.records slot).owes)
    (hwidth : budget.congestionBudget < 2 ^ 32)
    (hbudget : budget.charged = (refund (s.budgets p) amount).charged) :
    Balanced ({ s with transfers := t }.setBudget p budget) := by
  obtain ⟨hrow, -⟩ := h.transfers.outbound.owes_store hslot out
  rw [← howes, add_comm out.owes, ← add_assoc] at hrow
  have hcovered : (s.budgets p).charged = s.flowsOwe p +
      (s.transfers.outbound.store slot out).owes p + s.announced p • announceCharge + amount := by
    rw [h.books p hp, transfersOwe, ← add_right_cancel hrow]
    abel
  apply h.restore hslot ht hout htallied hwidth (n := 0) rfl (fun _ _ => rfl)
  rw [hbudget, charged_refund hcovered, hcovered, ← howes, zero_nsmul]
  abel

theorem Balanced.transferAck (h : Balanced s) {transferId recvNext : ℕ} {bitmap : List Bool}
    {now : ℕ} (next : PeerBudget)
    (horderly : s.transfers.Orderly (.onAck p transferId recvNext bitmap now))
    (hanswered : ∀ slot ∈ s.transfers.outbound.find p transferId,
      (s.transfers.outbound.records slot).Answered recvNext bitmap) :
    Balanced (s.transferAck p transferId recvNext bitmap now next) := by
  unfold Accounts.transferAck
  split
  · next slot hpeer hfind =>
    have hp : s.table.peers p ≠ none := by
      rw [hpeer]
      exact Option.some_ne_none _
    have hinv := h.transfers.rewrites (Table.onAck_rewrites h.transfers.outbound horderly)
    have howes := OutTransfer.onAck_owes (h.tallied slot) (hanswered slot hfind) now
    have hcall : s.transfers.onAck p transferId recvNext bitmap now =
        (((s.transfers.outbound.records slot).onAck recvNext bitmap now).2.1,
          s.transfers.settleSend slot ((s.transfers.outbound.records slot).onAck recvNext bitmap
            now).1 ((s.transfers.outbound.records slot).onAck recvNext bitmap now).2.2 .ok) := by
      rw [Table.onAck, hfind]
    have hacked : ∀ budget : PeerBudget, budget.congestionBudget < 2 ^ 32 →
        budget.charged = (refund (s.budgets p) (seqCharges (s.transfers.outbound.records slot).length
          (s.transfers.onAck p transferId recvNext bitmap now).1.freed)).charged →
        Balanced ({ s with transfers :=
          (s.transfers.onAck p transferId recvNext bitmap now).2 }.setBudget p budget) := by
      intro budget hwidth hbudget
      apply h.giveBack hp (Side.listed_of_find hfind) hinv _
        ((h.tallied slot).onAck (hanswered slot hfind) now) _ hwidth hbudget
      · rw [hcall]
        exact settleSend_outbound ..
      · rw [hcall]
        exact howes
    dsimp only
    split
    · next hnone =>
      have hquiet := hacked (s.budgets p) (h.width p) (by rw [hnone]; rfl)
      exact (setBudget_self { s with transfers :=
        (s.transfers.onAck p transferId recvNext bitmap now).2 } p) ▸ hquiet
    · exact hacked _ (u32_lt next.congestionBudget) rfl
  · exact h

theorem Balanced.transferReject (h : Balanced s) {transferId : ℕ}
    (horderly : s.transfers.Orderly (.onRefused p transferId)) :
    Balanced (s.transferReject p transferId) := by
  unfold Accounts.transferReject
  split
  · next slot hpeer hfind =>
    have hp : s.table.peers p ≠ none := by
      rw [hpeer]
      exact Option.some_ne_none _
    obtain ⟨htallied, howes⟩ := (h.tallied slot).onRefused
    have hcall : s.transfers.onRefused p transferId =
        ((s.transfers.outbound.records slot).onRefused.2.1,
          s.transfers.settleSend slot (s.transfers.outbound.records slot).onRefused.1
            (s.transfers.outbound.records slot).onRefused.2.2 .refused) := by
      rw [Table.onRefused, hfind]
    have hinv := h.transfers.rewrites (Table.onRefused_rewrites h.transfers.outbound horderly)
    refine h.giveBack hp (Side.listed_of_find hfind) hinv ?_ htallied
      ?_ ?_ rfl
    · rw [hcall]
      exact settleSend_outbound ..
    · rw [hcall]
      exact howes
    · exact h.width p
  · exact h

theorem Balanced.settled (h : Balanced s) {t : Table} (ht : t.Sending)
    (hsettled : Table.Settled s.transfers.outbound t.outbound) :
    Balanced { s with transfers := t } where
  __ := h
  transfers := ht
  tallied := hsettled.tallied
  books := by
    intro q hq
    have howes : transfersOwe { s with transfers := t } q = s.transfersOwe q := hsettled.owes q
    rw [howes]
    exact h.books q hq
  vacant := fun q hq => hsettled.empty q (h.vacant q hq)

/-- The receiving half leaves the sending half alone, and what the queue says of it. -/
def Inbound (t t' : Table) : Prop := t'.outbound = t.outbound ∧ t'.sentSlots = t.sentSlots

theorem Balanced.inbound (h : Balanced s) {t : Table} (ht : Inbound s.transfers t) :
    Balanced { s with transfers := t } := by
  apply h.settled (h.transfers.same ht.1 ht.2)
  rw [ht.1]
  exact ⟨h.tallied, fun _ => rfl, fun _ hp => hp⟩

section
variable (t : Table)

variable {t} in
theorem inbound_of {t' : Table} (hout : t'.outbound = t.outbound)
    (hqueue : t'.finished = t.finished) : Inbound t t' :=
  ⟨hout, by rw [Table.sentSlots, hqueue, Table.sentSlots]⟩

variable {t} in
theorem Inbound.trans {t' t'' : Table} (h : Inbound t t') (h' : Inbound t' t'') : Inbound t t'' :=
  ⟨h'.1.trans h.1, h'.2.trans h.2⟩

theorem push_inbound (slot : ℕ) (outcome : Error) : Inbound t (t.push slot true outcome) := by
  rw [Table.push]
  split
  · exact ⟨rfl, by simp [Table.sentSlots]⟩
  · exact inbound_of rfl rfl

theorem onData_inbound (peerSlot transferId seq : ℕ) (payload : List UInt8) :
    Inbound t (t.onData peerSlot transferId seq payload).2 := by
  cases hfind : t.inbound.find peerSlot transferId with
  | none =>
    simp only [Table.onData, hfind]
    exact inbound_of rfl rfl
  | some slot =>
    simp only [Table.onData, hfind, Table.settleData]
    split
    · exact (inbound_of rfl rfl).trans (push_inbound _ slot .ok)
    · exact inbound_of rfl rfl

theorem onAnnounce_inbound (peerSlot : ℕ) (peer : Address)
    (transferId length stride hint : ℕ) :
    Inbound t (t.onAnnounce peerSlot peer transferId length stride hint).2.2 := by
  rcases t.onAnnounce_cases peerSlot peer transferId length stride hint with
    hsame | ⟨-, -, -, -, -, -, hclaim⟩
  · rw [hsame]
    exact inbound_of rfl rfl
  · rw [hclaim]
    exact inbound_of rfl rfl

theorem allow_inbound (peerSlot transferId : ℕ) (buffer : Bool) :
    Inbound t (t.allow peerSlot transferId buffer).2 := by
  unfold Table.allow
  split
  · exact inbound_of rfl rfl
  · split <;> exact inbound_of rfl rfl

theorem reject_inbound (peerSlot transferId : ℕ) :
    Inbound t (t.reject peerSlot transferId).2 := by
  cases hfind : t.inbound.find peerSlot transferId with
  | none =>
    simp only [Table.reject, hfind]
    exact inbound_of rfl rfl
  | some slot =>
    simp only [Table.reject, hfind]
    exact inbound_of rfl rfl

theorem complete_inbound (peerSlot transferId : ℕ) :
    Inbound t (t.complete peerSlot transferId).2 := by
  cases hfind : t.inbound.find peerSlot transferId with
  | none =>
    simp only [Table.complete, hfind]
    exact inbound_of rfl rfl
  | some slot =>
    by_cases hdone : (t.inbound.records slot).complete = true
    · simp only [Table.complete, hfind, hdone, if_true]
      exact inbound_of rfl rfl
    · simp only [Table.complete, hfind, hdone, if_false, Bool.false_eq_true]
      exact inbound_of rfl rfl

theorem answer_inbound (peerSlot transferId : ℕ) :
    Inbound t (t.answer peerSlot transferId).2 := by
  unfold Table.answer
  split <;> exact inbound_of rfl rfl

end

theorem Balanced.transferCall (h : Balanced s) (c : Table.Call) : Balanced (s.transferCall c) := by
  cases c with
  | beginSend | onAck | onRefused | pass | sweepPeer => exact h
  | onAnnounce peerSlot peer transferId length stride hint =>
    exact h.inbound (onAnnounce_inbound s.transfers peerSlot peer transferId length stride hint)
  | onData peerSlot transferId seq payload =>
    exact h.inbound (onData_inbound s.transfers peerSlot transferId seq payload)
  | allow peerSlot transferId buffer =>
    exact h.inbound (allow_inbound s.transfers peerSlot transferId buffer)
  | reject peerSlot transferId =>
    exact h.inbound (reject_inbound s.transfers peerSlot transferId)
  | complete peerSlot transferId =>
    exact h.inbound (complete_inbound s.transfers peerSlot transferId)
  | answer peerSlot transferId =>
    exact h.inbound (answer_inbound s.transfers peerSlot transferId)
  | drainFinished max =>
    obtain ⟨hdrained, hsettled⟩ := h.transfers.drain max h.tallied
    exact h.settled hdrained hsettled

/-! ## Steps -/

/-- The books are not disturbed by a defect of another part: a flow is closed while its
associations still lead to their peers, no send is acknowledged or refused or swept out of turn,
acknowledgements of transfers name what was sent, and the clock is past its origin. -/
def Undisturbed (s : Accounts) : Event → Prop
  | .closeFlow f => s.table.ClosesReachable (.closeFlow f)
  | .removePeer addr => ∀ p ∈ s.table.peerAt addr, ∀ i ∈ s.transfers.sentSlots,
      (s.transfers.outbound.records i).peerSlot ≠ p
  | .transferPass _ _ _ _ now => 0 < now
  | .transferAck p transferId recvNext bitmap now _ =>
    s.transfers.Orderly (.onAck p transferId recvNext bitmap now) ∧
      ∀ slot ∈ s.transfers.outbound.find p transferId,
        (s.transfers.outbound.records slot).Answered recvNext bitmap
  | .transferReject p transferId => s.transfers.Orderly (.onRefused p transferId)
  | _ => True

instance (s : Accounts) : (e : Event) → Decidable (s.Undisturbed e)
  | .closeFlow f => inferInstanceAs (Decidable (s.table.ClosesReachable (.closeFlow f)))
  | .removePeer addr => inferInstanceAs (Decidable (∀ p ∈ s.table.peerAt addr, _))
  | .transferPass _ _ _ _ now => inferInstanceAs (Decidable (0 < now))
  | .transferAck .. => inferInstanceAs (Decidable (_ ∧ _))
  | .transferReject p transferId =>
    inferInstanceAs (Decidable (s.transfers.Orderly (.onRefused p transferId)))
  | .registerPeer .. | .bindId .. | .updateAddress .. | .openFlow .. | .clearEmitting .. | .send ..
  | .drainWaiting .. | .flowAck .. | .flowReject .. | .updateOutFlow .. | .refundResends ..
  | .tune .. | .sendTransfer .. | .transferCall .. => isTrue trivial

theorem Balanced.step (timers : FlowTimers) (h : Balanced s) (e : Event) (hok : s.Undisturbed e) :
    Balanced (s.step timers e) := by
  cases e with
  | registerPeer slot addr id => exact h.registerPeer slot addr id
  | bindId slot id => exact h.bindId slot id
  | updateAddress slot addr => exact h.updateAddress slot addr
  | removePeer addr => exact h.removePeer addr hok
  | openFlow flowId slot => exact h.openFlow flowId slot
  | closeFlow slot => exact h.closeFlow slot hok
  | clearEmitting a => exact h.clearEmitting a
  | send p flowId acquired post => exact h.send p flowId acquired post
  | drainWaiting p index candidateEpoch candidateSlot now =>
    exact h.drainWaiting p index candidateEpoch candidateSlot now
  | flowAck p acks now next => exact h.flowAck timers p acks now next
  | flowReject p flowId flowEpoch recorded => exact h.flowReject p flowId flowEpoch recorded
  | updateOutFlow p index now recorded next => exact h.updateOutFlow timers p index now recorded next
  | refundResends a seqs => exact h.refundResends a seqs
  | tune p next => exact h.tune p next
  | sendTransfer addr transferId buffer length hint =>
    exact h.sendTransfer addr transferId buffer length hint
  | transferPass p transferId queued times now => exact h.transferPass p transferId queued times hok
  | transferAck p transferId recvNext bitmap now next => exact h.transferAck next hok.1 hok.2
  | transferReject p transferId => exact h.transferReject hok
  | transferCall c => exact h.transferCall c

theorem balanced_init (maxPeers maxOutAssocPerPeer flowCount : ℕ)
    {outCount inCount maxTransferBytes : ℕ} {transfers : Table}
    (hinit : Table.init outCount inCount maxPeers maxTransferBytes = some transfers)
    (hexact : Pool.SplitUse.Exact outCount inCount) :
    Balanced (init maxPeers maxOutAssocPerPeer flowCount transfers) := by
  have hblank : (∀ i, transfers.outbound.records i = .blank) ∧
      (∀ p, transfers.outbound.entries p = []) ∧ transfers.sentSlots = [] := by
    obtain ⟨outbound, inbound, hout, -, rfl⟩ := Table.init_cases hinit
    rw [Side.init, Option.map_eq_some_iff] at hout
    obtain ⟨pool, -, rfl⟩ := hout
    exact ⟨fun _ => rfl, fun _ => rfl, rfl⟩
  have hsending : transfers.Sending := by
    refine ⟨(Table.inv_init hinit hexact).outbound, ?_, ?_⟩
    · rw [hblank.2.2]
      exact fun i hi => absurd hi List.not_mem_nil
    · rw [hblank.2.2]
      exact List.nodup_nil
  refine ⟨sound_init .., hsending, ?_, ?_, ?_, ?_, ?_⟩
  · intro a
    exact (OutAssociation.weighed_reset ..).tearDown .closed
  · intro i
    exact hblank.1 i ▸ OutTransfer.tallied_start ..
  · intro p
    have hfresh : freshBudget.congestionBudget < 2 ^ 32 := by decide
    exact hfresh
  · intro p hp
    exact absurd rfl hp
  · exact fun p _ => hblank.2.1 p

/-- In every run without such a disturbance the counters of a registered peer are what its
associations and transfers owe and one charge for each announcement sent to it, so they are
the sum of what is owed exactly when none was sent. -/
theorem charges_conserved (timers : FlowTimers)
    (maxPeers maxOutAssocPerPeer flowCount outCount inCount maxTransferBytes : ℕ)
    (hexact : Pool.SplitUse.Exact outCount inCount) (transfers : Table)
    (hinit : Table.init outCount inCount maxPeers maxTransferBytes = some transfers)
    (events : List Event)
    (hok : Along (step timers) Undisturbed
      (init maxPeers maxOutAssocPerPeer flowCount transfers) events) (p : ℕ)
    (hp : (run (step timers) (init maxPeers maxOutAssocPerPeer flowCount transfers)
      events).table.peers p ≠ none) :
    let s := run (step timers) (init maxPeers maxOutAssocPerPeer flowCount transfers) events
    (s.budgets p).charged = s.flowsOwe p + s.transfersOwe p + s.announced p • announceCharge ∧
      ((s.budgets p).charged = s.flowsOwe p + s.transfersOwe p ↔ s.announced p = 0) := by
  intro s
  have hbalanced : Balanced s := run_invariant (step timers) Balanced Undisturbed
    (fun _ e hok h => h.step timers e hok)
    (balanced_init maxPeers maxOutAssocPerPeer flowCount hinit hexact) hok
  have hbooks : (s.budgets p).charged =
      s.flowsOwe p + s.transfersOwe p + s.announced p • announceCharge := hbalanced.books p hp
  refine ⟨hbooks, ?_⟩
  rw [hbooks, add_eq_left]
  constructor
  · intro hzero
    have hpackets : s.announced p * 1 = 0 := congrArg Prod.snd hzero
    omega
  · intro hnone
    rw [hnone, zero_nsmul]

/-- A packet on each of two flows and a transfer of one packet, which is announced, answered, sent
and acknowledged; then the first flow is closed. -/
def busyPeer : List Event :=
  let bits := List.replicate transferWindow false
  [.registerPeer 0 ⟨[10, 0, 0, 1], 4000, 0⟩ none, .openFlow 5 0,
    .send 0 5 (some 3) ⟨List.replicate 40 0, 0, .reliableOrdered, 1, 4, true, 10⟩, .openFlow 6 1,
    .send 0 6 (some 4) ⟨List.replicate 50 0, 1, .reliableOrdered, 1, 4, true, 10⟩,
    .sendTransfer ⟨[10, 0, 0, 1], 4000, 0⟩ 1 (some fun _ => 7) 2 0,
    .transferPass 0 1 0 ⟨1000, 0⟩ 20, .transferAck 0 1 0 bits 30 freshBudget,
    .transferPass 0 1 0 ⟨1000, 0⟩ 40, .transferAck 0 1 1 bits 50 freshBudget, .closeFlow 0]

theorem charges_conserved_busy_peer : ∃ transfers,
    Table.init 64 0 4 100 = some transfers ∧ Pool.SplitUse.Exact 64 0 ∧
    let s := run (step ⟨1000, 0, 5000⟩) (init 4 2 4 transfers) busyPeer
    Along (step ⟨1000, 0, 5000⟩) Undisturbed (init 4 2 4 transfers) busyPeer ∧
      s.table.peers 0 ≠ none ∧ (s.budgets 0).charged = (50, 1) + announceCharge ∧
      (s.budgets 0).charged = s.flowsOwe 0 + s.transfersOwe 0 + s.announced 0 • announceCharge := by
  have hexact : Pool.SplitUse.Exact 64 0 := ⟨.inr ⟨6, rfl⟩, .inl rfl, by decide⟩
  have hsome : (Table.init 64 0 4 100).isSome := by decide +kernel
  have hrun : ∀ transfers ∈ Table.init 64 0 4 100,
      Along (step ⟨1000, 0, 5000⟩) Undisturbed (init 4 2 4 transfers) busyPeer ∧
        (run (step ⟨1000, 0, 5000⟩) (init 4 2 4 transfers) busyPeer).table.peers 0 ≠ none ∧
        ((run (step ⟨1000, 0, 5000⟩) (init 4 2 4 transfers) busyPeer).budgets 0).charged =
          (50, 1) + announceCharge := by
    decide +kernel
  obtain ⟨transfers, hinit⟩ := Option.isSome_iff_exists.mp hsome
  obtain ⟨hok, hp, hcharged⟩ := hrun transfers hinit
  exact ⟨transfers, hinit, hexact, hok, hp, hcharged,
    (charges_conserved ⟨1000, 0, 5000⟩ 4 2 4 64 0 100 hexact transfers hinit busyPeer hok 0 hp).1⟩

/-- A transfer is announced and refused: nothing is left to be resolved, and the counters of
the peer keep the charge of the announcement. -/
theorem refused_transfer_leaves_charge :
    (Table.init 64 0 4 100).map (fun transfers =>
      let s := run (step ⟨1000, 0, 5000⟩) (init 4 2 4 transfers)
        [.registerPeer 0 ⟨[10, 0, 0, 1], 4000, 0⟩ none,
          .sendTransfer ⟨[10, 0, 0, 1], 4000, 0⟩ 1 (some fun _ => 7) 2 0,
          .transferPass 0 1 0 ⟨1000, 0⟩ 1, .transferReject 0 1, .transferCall (.drainFinished 1)]
      (s.flowsOwe 0 + s.transfersOwe 0, s.transfers.outbound.entries 0, (s.budgets 0).charged)) =
    some (0, [], announceCharge) ∧ announceCharge ≠ 0 := by
  decide +kernel

end Accounts

end BcpFlux.Socket
