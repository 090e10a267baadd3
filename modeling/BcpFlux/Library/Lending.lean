import Mathlib.Algebra.BigOperators.Group.Finset.Sigma

/-! # Lent slots and the notices of their holders

Slots of several lanes are lent out, each time under a fresh lease.  A holder that is done
leaves one notice, which names its slot only.  `Kept` ties the notices still queued, and
the log of all that were ever left, to the holders: it is what makes a bare slot index
enough to find the holder again.
-/

namespace BcpFlux.Library

/-- Which slots are held, under which lease, and whose holders are done. -/
structure Lending (δ : Type*) where
  held : δ → ℕ → Prop
  lease : δ → ℕ → ℕ
  done : δ → ℕ → Prop
  next : δ → ℕ

structure Notice (δ : Type*) where
  lane : δ
  slot : ℕ
  lease : ℕ

namespace Lending
variable {δ : Type*}

/-- Leases are issued in order and one slot at a time. -/
structure Issued (l : Lending δ) : Prop where
  lease_lt : ∀ d i, l.held d i → l.lease d i < l.next d
  lease_inj : ∀ d i j, l.held d i → l.held d j → l.lease d i = l.lease d j → i = j

/-- Every holder that is done, and nobody else, is in the log, once; every queued notice
finds the holder that left it. -/
structure Kept (l : Lending δ) (log : List (δ × ℕ)) (queue : List (Notice δ)) : Prop where
  logged : ∀ d i, l.held d i → ((d, l.lease d i) ∈ log ↔ l.done d i)
  known : ∀ d n, (d, n) ∈ log → n < l.next d
  nodup : log.Nodup
  queued : ∀ e ∈ queue, l.held e.lane e.slot ∧ l.lease e.lane e.slot = e.lease ∧
    l.done e.lane e.slot
  distinct : (queue.map fun e => (e.lane, e.slot)).Nodup

/-- No notice was left, and slots changed hands in the two ways they may: the holder stayed
as it was, or the slot is lent afresh. -/
structure Onward (l l' : Lending δ) : Prop where
  next_le : ∀ d, l.next d ≤ l'.next d
  held : ∀ d i, l'.held d i →
    (l.held d i ∧ l'.lease d i = l.lease d i ∧ (l'.done d i ↔ l.done d i)) ∨
      (l.next d ≤ l'.lease d i ∧ ¬ l'.done d i)

variable {l l' : Lending δ} {log : List (δ × ℕ)} {queue queue' : List (Notice δ)}

theorem kept_nil (hnext : ∀ d i, ¬ l.held d i) : l.Kept [] [] where
  logged d i hi := absurd hi (hnext d i)
  known d n h := by cases h
  nodup := List.nodup_nil
  queued e h := by cases h
  distinct := List.nodup_nil

/-- A step that leaves no notice may take some off the queue, and may end any holder that
has none queued. -/
theorem Kept.onward (h : l.Kept log queue) (hissued : l.Issued) (hon : l.Onward l')
    (hsub : queue'.Sublist queue) (hkeep : ∀ e ∈ queue', l'.held e.lane e.slot)
    (hsame : ∀ e ∈ queue', l'.lease e.lane e.slot = l.lease e.lane e.slot) :
    l'.Kept log queue' where
  logged d i hi := by
    rcases hon.held d i hi with ⟨hold, hlease, hdone⟩ | ⟨hfresh, hnot⟩
    · rw [hlease, hdone]
      exact h.logged d i hold
    · refine iff_of_false ?_ hnot
      intro hmem
      exact absurd (h.known d _ hmem) (Nat.not_lt.mpr hfresh)
  known d n hmem := lt_of_lt_of_le (h.known d n hmem) (hon.next_le d)
  nodup := h.nodup
  queued e he := by
    obtain ⟨hheld, hlease, hdone⟩ := h.queued e (hsub.subset he)
    refine ⟨hkeep e he, (hsame e he).trans hlease, ?_⟩
    rcases hon.held _ _ (hkeep e he) with ⟨-, -, hiff⟩ | ⟨hfresh, -⟩
    · exact hiff.mpr hdone
    · have hlt := hissued.lease_lt _ _ hheld
      rw [hsame e he] at hfresh
      exact absurd hlt (Nat.not_lt.mpr hfresh)
  distinct := h.distinct.sublist (hsub.map _)

theorem Kept.push (h : l.Kept log queue) (hissued : l.Issued) {d : δ} {i : ℕ} (hheld : l.held d i)
    (hopen : ¬ l.done d i) (hdone : l'.done d i) (hnext : l'.next = l.next)
    (hsame : ∀ d' j, l'.held d' j ↔ l.held d' j) (hlease : l'.lease = l.lease)
    (hrest : ∀ d' j, (d', j) ≠ (d, i) → (l'.done d' j ↔ l.done d' j)) :
    l'.Kept (log ++ [(d, l.lease d i)]) (queue ++ [⟨d, i, l.lease d i⟩]) where
  logged d' j hj := by
    rw [hlease, List.mem_append, List.mem_singleton]
    have hj' := (hsame d' j).mp hj
    by_cases heq : (d', j) = (d, i)
    · cases heq
      exact iff_of_true (.inr rfl) hdone
    · rw [hrest d' j heq, h.logged d' j hj', or_iff_left]
      intro hnew
      obtain ⟨rfl, hsameLease⟩ := Prod.mk.inj hnew
      rw [hissued.lease_inj d' j i hj' hheld hsameLease] at heq
      exact heq rfl
  known d' n hmem := by
    rw [hnext]
    rcases List.mem_append.mp hmem with hold | hnew
    · exact h.known d' n hold
    · cases List.mem_singleton.mp hnew
      exact hissued.lease_lt d i hheld
  nodup := by
    apply h.nodup.append (List.nodup_singleton _)
    intro key hkey hnew
    rw [List.mem_singleton.mp hnew] at hkey
    exact hopen ((h.logged d i hheld).mp hkey)
  queued e he := by
    rw [hlease, hsame]
    rcases List.mem_append.mp he with hold | hnew
    · obtain ⟨hh, hl, hd⟩ := h.queued e hold
      refine ⟨hh, hl, ?_⟩
      by_cases heq : (e.lane, e.slot) = (d, i)
      · cases heq
        exact hdone
      · exact (hrest _ _ heq).mpr hd
    · rw [List.mem_singleton.mp hnew]
      exact ⟨hheld, rfl, hdone⟩
  distinct := by
    rw [List.map_append]
    apply h.distinct.append (List.nodup_singleton _)
    intro key hkey hnew
    obtain ⟨e, he, rfl⟩ := List.mem_map.mp hkey
    have hat := List.mem_singleton.mp hnew
    simp only [Prod.mk.injEq] at hat
    apply hopen
    rw [← hat.1, ← hat.2]
    exact (h.queued e he).2.2

theorem Kept.count_eq [BEq (δ × ℕ)] [LawfulBEq (δ × ℕ)] (h : l.Kept log queue) {d : δ} {i : ℕ}
    (hheld : l.held d i) {b : Bool} (hb : l.done d i ↔ b = true) :
    log.count (d, l.lease d i) = if b then 1 else 0 := by
  have hmem := (h.logged d i hheld).trans hb
  cases b
  · rw [if_neg Bool.false_ne_true, List.count_eq_zero]
    exact mt hmem.mp Bool.false_ne_true
  · rw [if_pos rfl]
    exact List.count_eq_one_of_mem h.nodup (hmem.mpr rfl)

theorem Kept.length_lt [Fintype δ] [DecidableEq δ] (h : l.Kept log queue) {size : δ → ℕ}
    (hsize : ∀ d i, l.held d i → i < size d) {d : δ} {i : ℕ} (hheld : l.held d i)
    (hopen : ¬ l.done d i) : queue.length < ∑ d, size d := by
  let slots : Finset (δ × ℕ) := (queue.map fun e => (e.lane, e.slot)).toFinset
  have hnot : (d, i) ∉ slots := by
    simp only [slots, List.mem_toFinset, List.mem_map, Prod.mk.injEq, not_exists, not_and]
    rintro e he rfl rfl
    exact hopen (h.queued e he).2.2
  have hcard : slots.card = queue.length := by
    rw [List.toFinset_card_of_nodup h.distinct, List.length_map]
  have hall : insert (d, i) slots ⊆
      (Finset.univ.sigma fun d => Finset.range (size d)).image fun p => (p.1, p.2) := by
    intro p hp
    simp only [Finset.mem_image, Finset.mem_sigma, Finset.mem_univ, Finset.mem_range, true_and]
    rcases Finset.mem_insert.mp hp with rfl | hslot
    · exact ⟨⟨d, i⟩, hsize d i hheld, rfl⟩
    · obtain ⟨e, he, rfl⟩ := List.mem_map.mp (List.mem_toFinset.mp hslot)
      exact ⟨⟨e.lane, e.slot⟩, hsize _ _ (h.queued e he).1, rfl⟩
  calc queue.length < (insert (d, i) slots).card := by
        rw [Finset.card_insert_of_notMem hnot, hcard]
        exact Nat.lt_succ_self _
    _ ≤ ((Finset.univ.sigma fun d => Finset.range (size d)).image fun p => (p.1, p.2)).card :=
        Finset.card_le_card hall
    _ ≤ (Finset.univ.sigma fun d => Finset.range (size d)).card := Finset.card_image_le
    _ = ∑ d, size d := by simp [Finset.card_sigma]

end Lending

end BcpFlux.Library
