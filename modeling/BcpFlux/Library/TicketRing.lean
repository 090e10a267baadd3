import BcpFlux.Library.Ring

/-! # Bounded queues with ticketed cells

A ring of `cap` cells shared by takers and givers.  Every cell carries a ticket:
the position at which it may next be filled, or one more than the position whose
value it holds.  The two cursors and the tickets are counters that wrap at `wrap`,
and the signed distance of a ticket from a cursor tells a ready cell from one that
is not.  Calls are taken one after the other, so a call that would wait does not return.
-/

namespace BcpFlux.Library
open Function

/-- `a - b` for counters that wrap. -/
def lag (wrap a b : ℕ) : ℕ := (a + wrap - b) % wrap

theorem lag_self {wrap : ℕ} (hwrap : 0 < wrap) (n : ℕ) :
    lag wrap (n % wrap) (n % wrap) = 0 := by
  rw [lag, show n % wrap + wrap - n % wrap = wrap by omega, Nat.mod_self]

theorem lag_succ {wrap : ℕ} (hwrap : 1 < wrap) (n : ℕ) :
    lag wrap (n % wrap) ((n + 1) % wrap) = wrap - 1 := by
  have hlt := Nat.mod_lt n (by omega : wrap > 0)
  rw [lag]
  by_cases hn : n % wrap + 1 < wrap
  · have hsucc : (n + 1) % wrap = n % wrap + 1 := by
      rw [Nat.add_mod, Nat.mod_eq_of_lt hwrap, Nat.mod_eq_of_lt hn]
    rw [hsucc, show n % wrap + wrap - (n % wrap + 1) = wrap - 1 by omega]
    exact Nat.mod_eq_of_lt (by omega)
  · have hlast : n % wrap + 1 = wrap := by omega
    have hsucc : (n + 1) % wrap = 0 := by
      rw [Nat.add_mod, Nat.mod_eq_of_lt hwrap, hlast, Nat.mod_self]
    rw [hsucc, show n % wrap + wrap - 0 = (wrap - 1) + wrap by omega, Nat.add_mod_right]
    exact Nat.mod_eq_of_lt (by omega)

structure TicketRing (α : Type*) where
  head : ℕ
  tail : ℕ
  ticket : ℕ → ℕ
  value : ℕ → α

/-- How one attempt to take ends.  `stuck` is an attempt that waits for ever. -/
inductive Take (α : Type*) where
  | took (v : α) (ring : TicketRing α)
  | empty
  | stuck

namespace TicketRing
variable {α : Type*} (wrap cap : ℕ)

def take (r : TicketRing α) : Take α :=
  let cell := slot cap r.tail
  let diff := lag wrap (r.ticket cell) ((r.tail + 1) % wrap)
  if diff = 0 then
    .took (r.value cell)
      { r with
        tail := (r.tail + 1) % wrap
        ticket := update r.ticket cell ((r.tail + (cap - 1) + 1) % wrap) }
  else if wrap / 2 ≤ diff then .empty
  else .stuck

/-- `none` is a call that waits for ever. -/
def give (r : TicketRing α) (v : α) : Option (TicketRing α) :=
  let cell := slot cap r.head
  if lag wrap (r.ticket cell) r.head = 0 then
    some
      { r with
        head := (r.head + 1) % wrap
        ticket := update r.ticket cell ((r.head + 1) % wrap)
        value := update r.value cell v }
  else none

/-- The ring with `values 0, …, values (cap - 1)` queued. -/
def full (values : ℕ → α) : TicketRing α where
  head := cap % wrap
  tail := 0
  ticket := fun k => (k + 1) % wrap
  value := values

/-- The ring stands for the queue `q`: with `t` turns taken so far, the cells from `t` on
hold `q` under tickets one ahead, the others wait for the position after. -/
structure Holds (r : TicketRing α) (q : List α) (t : ℕ) : Prop where
  fits : q.length ≤ cap
  tail_eq : r.tail = t % wrap
  head_eq : r.head = (t + q.length) % wrap
  queued : ∀ k v, q[k]? = some v →
    r.ticket ((t + k) % cap) = (t + k + 1) % wrap ∧ r.value ((t + k) % cap) = v
  free : ∀ k, q.length ≤ k → k < cap → r.ticket ((t + k) % cap) = (t + k) % wrap

section Spec
variable {wrap cap} {r : TicketRing α} {q : List α} {t : ℕ}
variable (hcap : IsPow2 cap) (hdvd : cap ∣ wrap) (hwrap : 1 < wrap)

include hcap hdvd in
theorem slot_mod (n : ℕ) : slot cap (n % wrap) = n % cap := by
  rw [hcap.slot_eq, Nat.mod_mod_of_dvd n hdvd]

theorem cell_ne (cap : ℕ) {a b : ℕ} (hab : a < b) (hlt : b < a + cap) : a % cap ≠ b % cap := by
  intro heq
  exact absurd (mod_inj_of_window hab.le hlt heq) hab.ne

theorem holds_full (values : ℕ → α) :
    (full wrap cap values).Holds wrap cap ((List.range cap).map values) 0 where
  fits := by simp
  tail_eq := by simp [full]
  head_eq := by simp [full]
  queued k v hk := by
    obtain ⟨hlt, rfl⟩ : k < cap ∧ values k = v := by
      rw [List.getElem?_map, Option.map_eq_some_iff] at hk
      obtain ⟨i, hi, rfl⟩ := hk
      obtain ⟨hlt, rfl⟩ := List.getElem?_eq_some_iff.mp hi
      simp only [List.length_range] at hlt
      simp [hlt]
    simp [full, Nat.mod_eq_of_lt hlt]
  free k hk hlt := by
    simp only [List.length_map, List.length_range] at hk
    omega

include hcap hdvd hwrap

theorem take_empty (h : r.Holds wrap cap [] t) : r.take wrap cap = .empty := by
  have hticket : r.ticket (t % cap) = t % wrap := by simpa using h.free 0 le_rfl hcap.pos
  have hdiff : lag wrap (r.ticket (slot cap r.tail)) ((r.tail + 1) % wrap) = wrap - 1 := by
    rw [h.tail_eq, slot_mod hcap hdvd, hticket, Nat.mod_add_mod]
    exact lag_succ hwrap t
  rw [take, hdiff, if_neg (by omega), if_pos (by omega)]

theorem take_cons {v : α} (h : r.Holds wrap cap (v :: q) t) :
    ∃ r', r.take wrap cap = .took v r' ∧ r'.Holds wrap cap q (t + 1) := by
  have hfits : q.length + 1 ≤ cap := h.fits
  obtain ⟨hticket, hvalue⟩ := h.queued 0 v rfl
  simp only [Nat.add_zero] at hticket hvalue
  have hdiff : lag wrap (r.ticket (slot cap r.tail)) ((r.tail + 1) % wrap) = 0 := by
    rw [h.tail_eq, slot_mod hcap hdvd, hticket, Nat.mod_add_mod]
    exact lag_self (by omega) _
  have hnext : (r.tail + (cap - 1) + 1) % wrap = (t + cap) % wrap := by
    rw [h.tail_eq, show t % wrap + (cap - 1) + 1 = t % wrap + cap by omega, Nat.mod_add_mod]
  rw [take, hdiff, if_pos rfl, hnext, h.tail_eq, slot_mod hcap hdvd, hvalue, Nat.mod_add_mod]
  refine ⟨_, rfl, ⟨by omega, rfl, ?_, ?_, ?_⟩⟩
  · show r.head = _
    rw [h.head_eq, List.length_cons]
    congr 1
    omega
  · intro k w hk
    have hklt : k < q.length := (List.getElem?_eq_some_iff.mp hk).1
    have hne := cell_ne cap (by omega : t < t + (k + 1)) (by omega)
    obtain ⟨hkt, hkv⟩ := h.queued (k + 1) w (by simpa using hk)
    dsimp only
    rw [show t + 1 + k = t + (k + 1) by omega]
    exact ⟨by rw [update_of_ne hne.symm, hkt], hkv⟩
  · intro k hk hlt
    dsimp only
    rw [show t + 1 + k = t + (k + 1) by omega]
    by_cases hlast : k + 1 = cap
    · rw [hlast, Nat.add_mod_right, update_self]
    · have hne := cell_ne cap (by omega : t < t + (k + 1)) (by omega)
      rw [update_of_ne hne.symm]
      exact h.free (k + 1) (by simp only [List.length_cons]; omega) (by omega)

theorem give_room (h : r.Holds wrap cap q t) (v : α) (hroom : q.length < cap) :
    ∃ r', r.give wrap cap v = some r' ∧ r'.Holds wrap cap (q ++ [v]) t := by
  have hticket := h.free q.length le_rfl hroom
  have hdiff : lag wrap (r.ticket (slot cap r.head)) r.head = 0 := by
    rw [h.head_eq, slot_mod hcap hdvd, hticket]
    exact lag_self (by omega) _
  rw [give, hdiff, if_pos rfl, h.head_eq, slot_mod hcap hdvd, Nat.mod_add_mod]
  refine ⟨_, rfl, ⟨by simp; omega, h.tail_eq, by simp [Nat.add_assoc], ?_, ?_⟩⟩
  · intro k w hk
    dsimp only
    rcases Nat.lt_trichotomy k q.length with hlt | rfl | hgt
    · have hne := cell_ne cap (by omega : t + k < t + q.length) (by omega)
      rw [List.getElem?_append_left hlt] at hk
      obtain ⟨hkt, hkv⟩ := h.queued k w hk
      exact ⟨by rw [update_of_ne hne, hkt], by rw [update_of_ne hne, hkv]⟩
    · simp only [List.getElem?_concat_length, Option.some.injEq] at hk
      simp [hk]
    · rw [List.getElem?_eq_none (by simp only [List.length_append, List.length_singleton]; omega)]
        at hk
      cases hk
  · intro k hk hlt
    simp only [List.length_append, List.length_singleton] at hk
    dsimp only
    have hne := cell_ne cap (by omega : t + q.length < t + k) (by omega)
    rw [update_of_ne hne.symm]
    exact h.free k (by omega) hlt

end Spec

end TicketRing

end BcpFlux.Library
