import Mathlib.Algebra.BigOperators.Group.Finset.Piecewise
import Mathlib.Algebra.Order.BigOperators.Group.Finset
import Mathlib.Tactic.Abel

/-! # Robin Hood hashing

Buckets in a ring, each empty or holding an entry, and every entry has a home bucket.  An
insertion takes the bucket of any entry that is nearer to its home and carries that one on,
a removal shifts the run behind it back by one.  A probe may stop early because
an entry away from home stands behind one that is at most one step nearer to its own.
-/

namespace BcpFlux.Library.RobinHood
open Function

/-! ## Around the ring -/

def next (cap p : ℕ) : ℕ := if p + 1 < cap then p + 1 else 0

def prev (cap p : ℕ) : ℕ := if p = 0 then cap - 1 else p - 1

def ahead (cap p k : ℕ) : ℕ := if p + k < cap then p + k else p + k - cap

def away (cap home p : ℕ) : ℕ := if home ≤ p then p - home else p + cap - home

section Ring
variable {cap p h k : ℕ}

theorem next_lt (hp : p < cap) : next cap p < cap := by
  unfold next
  split_ifs <;> omega

theorem ahead_lt (hp : p < cap) (hk : k ≤ cap) : ahead cap p k < cap := by
  unfold ahead
  split_ifs <;> omega

theorem away_lt (hp : p < cap) (hh : h < cap) : away cap h p < cap := by
  unfold away
  split_ifs <;> omega

theorem ahead_zero (hp : p < cap) : ahead cap p 0 = p := by
  unfold ahead
  split_ifs <;> omega

theorem next_eq_ahead (hp : p < cap) : next cap p = ahead cap p 1 := by
  unfold next ahead
  split_ifs <;> omega

theorem prev_next (hp : p < cap) : prev cap (next cap p) = p := by
  unfold prev next
  by_cases hlt : p + 1 < cap
  · rw [if_pos hlt, if_neg (by omega)]
    omega
  · rw [if_neg hlt, if_pos rfl]
    omega

theorem next_prev (hp : p < cap) : next cap (prev cap p) = p := by
  unfold prev next
  split_ifs <;> omega

theorem next_ahead (hp : p < cap) (hk : k < cap) :
    next cap (ahead cap p k) = ahead cap p (k + 1) := by
  unfold next ahead
  split_ifs <;> omega

theorem ahead_next (hp : p < cap) (hk : k < cap) :
    ahead cap (next cap p) k = ahead cap p (k + 1) := by
  unfold next ahead
  split_ifs <;> omega

theorem prev_ahead (hp : p < cap) (hk : k < cap) :
    prev cap (ahead cap p (k + 1)) = ahead cap p k := by
  unfold prev ahead
  by_cases hlt : p + (k + 1) < cap
  · rw [if_pos hlt, if_neg (by omega), if_pos (by omega)]
    omega
  · rw [if_neg hlt]
    split_ifs <;> omega

theorem ahead_away (hp : p < cap) (hh : h < cap) : ahead cap h (away cap h p) = p := by
  unfold ahead away
  split_ifs <;> omega

theorem away_ahead (hk : k < cap) : away cap h (ahead cap h k) = k := by
  unfold ahead away
  split_ifs <;> omega

theorem ahead_ne (hk : 0 < k) (hlt : k < cap) : ahead cap p k ≠ p := by
  unfold ahead
  split_ifs <;> omega

theorem ahead_inj {j : ℕ} (hj : j < cap) (hk : k < cap)
    (heq : ahead cap p j = ahead cap p k) : j = k := by
  unfold ahead at heq
  split_ifs at heq <;> omega

theorem away_next (hp : p < cap) (hh : h < cap) (hfar : away cap h p + 1 < cap) :
    away cap h (next cap p) = away cap h p + 1 := by
  unfold away at hfar ⊢
  unfold next
  split_ifs at hfar ⊢ <;> omega

theorem away_of_next (hp : p < cap) (hh : h < cap) (hne : away cap h (next cap p) ≠ 0) :
    away cap h p + 1 = away cap h (next cap p) := by
  unfold away at hne ⊢
  unfold next at hne ⊢
  split_ifs at hne ⊢ <;> omega

theorem prev_ne (hcap : 2 ≤ cap) : prev cap p ≠ p := by
  unfold prev
  split_ifs <;> omega

end Ring

/-! ## The operations -/

variable {α : Type*} (cap : ℕ) (home : α → ℕ)

/-- The writer's probe: the bucket of an entry, or none.  Nothing at all if it has not ended
within the fuel. -/
def probe (hit : α → Bool) (cells : ℕ → Option α) : ℕ → ℕ → ℕ → Option (Option ℕ)
  | 0, _, _ => none
  | fuel + 1, dist, pos =>
    match cells pos with
    | none => some none
    | some a =>
      if hit a then some (some pos)
      else if away cap (home a) pos < dist then some none
      else probe hit cells fuel (dist + 1) (next cap pos)

/-- Carry an entry on until a bucket is empty. -/
def insertFrom : ℕ → ℕ → ℕ → α → (ℕ → Option α) → Option (ℕ → Option α)
  | 0, _, _, _, _ => none
  | fuel + 1, dist, pos, carry, cells =>
    match cells pos with
    | none => some (update cells pos (some carry))
    | some a =>
      if away cap (home a) pos < dist then
        insertFrom fuel (away cap (home a) pos + 1) (next cap pos) a
          (update cells pos (some carry))
      else insertFrom fuel (dist + 1) (next cap pos) carry cells

/-- Shift the run behind a bucket back by one. -/
def removeFrom : ℕ → ℕ → (ℕ → Option α) → Option (ℕ → Option α)
  | 0, _, _ => none
  | fuel + 1, pos, cells =>
    match cells (next cap pos) with
    | none => some (update cells pos none)
    | some a =>
      if away cap (home a) (next cap pos) = 0 then some (update cells pos none)
      else removeFrom fuel (next cap pos) (update cells pos (some a))

/-- The reader's probe over at most so many buckets, collecting every hit. -/
def collect (hit : α → Bool) (cells : ℕ → Option α) : ℕ → ℕ → ℕ → List α
  | 0, _, _ => []
  | left + 1, dist, pos =>
    match cells pos with
    | none => []
    | some a =>
      if hit a then a :: collect hit cells left (dist + 1) (next cap pos)
      else if away cap (home a) pos < dist then []
      else collect hit cells left (dist + 1) (next cap pos)

/-- The reader's probe for one entry: among those that look the same, the first that is
verified. -/
def search (same verify : α → Bool) (cells : ℕ → Option α) : ℕ → ℕ → ℕ → Option α
  | 0, _, _ => none
  | left + 1, dist, pos =>
    match cells pos with
    | none => none
    | some a =>
      if same a then
        if verify a then some a
        else search same verify cells left (dist + 1) (next cap pos)
      else if away cap (home a) pos < dist then none
      else search same verify cells left (dist + 1) (next cap pos)

/-- Remove whatever stands in one bucket while it is a victim, and count. -/
def clearAt (victim : α → Bool) (pos : ℕ) : ℕ → (ℕ → Option α) → Option ((ℕ → Option α) × ℕ)
  | 0, _ => none
  | fuel + 1, cells =>
    match cells pos with
    | none => some (cells, 0)
    | some a =>
      if victim a then
        (removeFrom cap home cap pos cells).bind fun cells' =>
          (clearAt victim pos fuel cells').map fun r => (r.1, r.2 + 1)
      else some (cells, 0)

/-- Sweep the first buckets in order. -/
def clearUpTo (victim : α → Bool) : ℕ → (ℕ → Option α) → Option ((ℕ → Option α) × ℕ)
  | 0, cells => some (cells, 0)
  | n + 1, cells =>
    (clearUpTo victim n cells).bind fun r =>
      (clearAt cap home victim n (cap + 1) r.1).map fun r' => (r'.1, r.2 + r'.2)

/-! ## Order -/

/-- An entry so many steps from home may stand at `p`. -/
def Near (cells : ℕ → Option α) (p d : ℕ) : Prop :=
  d = 0 ∨ ∃ b, cells (prev cap p) = some b ∧ d ≤ away cap (home b) (prev cap p) + 1

def Ordered (cells : ℕ → Option α) : Prop :=
  ∀ p < cap, ∀ a, cells p = some a → Near cap home cells p (away cap (home a) p)

def contents (cells : ℕ → Option α) : Multiset α :=
  ∑ p ∈ Finset.range cap, (cells p).elim 0 fun a => {a}

section Contents
variable {cap} {cells : ℕ → Option α} {p : ℕ}

theorem mem_contents {a : α} : a ∈ contents cap cells ↔ ∃ p < cap, cells p = some a := by
  rw [contents, Multiset.mem_sum]
  constructor
  · rintro ⟨p, hp, ha⟩
    refine ⟨p, Finset.mem_range.mp hp, ?_⟩
    cases hcell : cells p with
    | none => simp [hcell] at ha
    | some b =>
      rw [hcell] at ha
      rw [Multiset.mem_singleton.mp ha]
  · rintro ⟨p, hp, ha⟩
    refine ⟨p, Finset.mem_range.mpr hp, ?_⟩
    rw [ha]
    exact Multiset.mem_singleton_self a

theorem contents_update (cells : ℕ → Option α) (hp : p < cap) (v : Option α) :
    contents cap (update cells p v) + (cells p).elim 0 (fun a => {a}) =
      contents cap cells + v.elim 0 fun a => {a} := by
  have hmem : p ∈ Finset.range cap := Finset.mem_range.mpr hp
  have hother : ∀ q ∈ (Finset.range cap).erase p,
      (update cells p v q).elim (0 : Multiset α) (fun a => {a}) =
        (cells q).elim 0 fun a => {a} := by
    intro q hq
    rw [update_of_ne (Finset.ne_of_mem_erase hq)]
  rw [contents, contents, ← Finset.add_sum_erase _ _ hmem, ← Finset.add_sum_erase _ _ hmem,
    Finset.sum_congr rfl hother, update_self]
  abel

theorem exists_empty (h : (contents cap cells).card < cap) : ∃ p < cap, cells p = none := by
  by_contra hfull
  push Not at hfull
  have hone : ∀ p ∈ Finset.range cap, ((cells p).elim (0 : Multiset α) fun a => {a}).card = 1 := by
    intro p hp
    obtain ⟨a, ha⟩ := Option.ne_none_iff_exists'.mp (hfull p (Finset.mem_range.mp hp))
    rw [ha]
    exact Multiset.card_singleton a
  rw [contents, Multiset.card_sum, Finset.sum_congr rfl hone] at h
  simp at h

end Contents

/-! ## Probing -/

section Probe
variable {cap home} {cells : ℕ → Option α} {h : ℕ}

/-- Between its home and an entry every bucket is taken, by entries at least as far from
theirs as the bucket is from this home. -/
theorem Ordered.taken (hcells : Ordered cap home cells) (hhome : ∀ a, home a < cap) {p : ℕ}
    (hp : p < cap) {a : α} (ha : cells p = some a) (k : ℕ) (hk : k ≤ away cap (home a) p) :
    ∃ b, cells (ahead cap (home a) k) = some b ∧
      k ≤ away cap (home b) (ahead cap (home a) k) := by
  have hfar : away cap (home a) p < cap := away_lt hp (hhome a)
  -- backwards from the entry, a step at a time
  have hback : ∀ j ≤ away cap (home a) p, ∃ b,
      cells (ahead cap (home a) (away cap (home a) p - j)) = some b ∧
        away cap (home a) p - j ≤
          away cap (home b) (ahead cap (home a) (away cap (home a) p - j)) := by
    intro j
    induction j with
    | zero =>
      intro _
      rw [Nat.sub_zero, ahead_away hp (hhome a)]
      exact ⟨a, ha, Nat.le_refl _⟩
    | succ j ih =>
      intro hj
      obtain ⟨b, hb, hle⟩ := ih (by omega)
      have hlt : ahead cap (home a) (away cap (home a) p - j) < cap :=
        ahead_lt (hhome a) (by omega)
      have hprev : prev cap (ahead cap (home a) (away cap (home a) p - j)) =
          ahead cap (home a) (away cap (home a) p - (j + 1)) := by
        rw [← prev_ahead (hhome a) (show away cap (home a) p - (j + 1) < cap by omega),
          show away cap (home a) p - (j + 1) + 1 = away cap (home a) p - j by omega]
      rcases hcells _ hlt b hb with hzero | ⟨c, hc, hstep⟩
      · omega
      · rw [hprev] at hc hstep
        exact ⟨c, hc, by omega⟩
  have hthis := hback (away cap (home a) p - k) (by omega)
  rwa [show away cap (home a) p - (away cap (home a) p - k) = k by omega] at hthis

/-- A bucket that is empty, or whose entry is nearer to home than the probe, hides no entry
of this home behind it. -/
theorem Ordered.none_beyond (hcells : Ordered cap home cells) (hhome : ∀ a, home a < cap) {k : ℕ}
    (hstop : ∀ b, cells (ahead cap h k) = some b → away cap (home b) (ahead cap h k) < k)
    {p : ℕ} (hp : p < cap) {a : α} (ha : cells p = some a) (hah : home a = h) :
    away cap h p < k := by
  by_contra hge
  obtain ⟨b, hb, hle⟩ := hcells.taken hhome hp ha k (by rw [hah]; omega)
  rw [hah] at hb hle
  have hlt := hstop b hb
  omega

theorem probe_spec (hcells : Ordered cap home cells) (hhome : ∀ a, home a < cap) (hh : h < cap)
    {hit : α → Bool} (hhit : ∀ a, hit a = true → home a = h) {g : ℕ} (hg : g < cap)
    (hempty : cells (ahead cap h g) = none) :
    ∀ fuel k, k ≤ g → g - k < fuel →
      (∀ j < k, ∀ a, cells (ahead cap h j) = some a → hit a = false) →
      ∃ r, probe cap home hit cells fuel k (ahead cap h k) = some r ∧
        (r = none → ∀ p < cap, ∀ a, cells p = some a → hit a = false) ∧
        ∀ p, r = some p → p < cap ∧ ∃ a, cells p = some a ∧ hit a = true := by
  intro fuel
  induction fuel with
  | zero =>
    intro k _ hfuel
    omega
  | succ fuel ih =>
    intro k hk hfuel hbefore
    -- if the probe stops here without a hit, there is none
    have hmiss : (∀ b, cells (ahead cap h k) = some b →
        hit b = false ∧ away cap (home b) (ahead cap h k) < k) →
        ∀ p < cap, ∀ a, cells p = some a → hit a = false := by
      intro hstop p hp a ha
      by_contra htrue
      have hah := hhit a (by simpa using htrue)
      have hlt := hcells.none_beyond hhome (fun b hb => (hstop b hb).2) hp ha hah
      have hfalse := hbefore _ hlt a (by rw [ahead_away hp hh]; exact ha)
      exact htrue hfalse
    rw [probe]
    cases hcell : cells (ahead cap h k) with
    | none =>
      refine ⟨none, rfl, fun _ => hmiss ?_, nofun⟩
      intro b hb
      rw [hcell] at hb
      cases hb
    | some a =>
      dsimp only
      by_cases hfound : hit a = true
      · rw [if_pos hfound]
        refine ⟨some (ahead cap h k), rfl, nofun, ?_⟩
        intro p hpr
        rw [← Option.some.inj hpr]
        exact ⟨ahead_lt hh (by omega), a, hcell, hfound⟩
      rw [if_neg hfound]
      rw [Bool.not_eq_true] at hfound
      by_cases hnear : away cap (home a) (ahead cap h k) < k
      · rw [if_pos hnear]
        refine ⟨none, rfl, fun _ => hmiss ?_, nofun⟩
        intro b hb
        rw [hcell, Option.some.injEq] at hb
        rw [← hb]
        exact ⟨hfound, hnear⟩
      · rw [if_neg hnear, next_ahead hh (by omega)]
        have hne : k ≠ g := by
          rintro rfl
          rw [hempty] at hcell
          cases hcell
        apply ih (k + 1) (by omega) (by omega)
        intro j hj b hb
        by_cases hjk : j = k
        · rw [hjk, hcell, Option.some.injEq] at hb
          rw [← hb]
          exact hfound
        · exact hbefore j (by omega) b hb

end Probe

/-! ## Inserting -/

section Insert
variable {cap home} {cells : ℕ → Option α}

/-- An entry that may stand at `pos` is written there; what stands behind has to bear it. -/
theorem Ordered.write (hcells : Ordered cap home cells) {pos : ℕ} (hpos : pos < cap) {c : α}
    (hnear : Near cap home cells pos (away cap (home c) pos))
    (hroom : away cap (home c) pos = 0 ∨ 2 ≤ cap)
    (hbehind : ∀ e, cells (next cap pos) = some e → away cap (home e) (next cap pos) = 0 ∨
      away cap (home e) (next cap pos) ≤ away cap (home c) pos + 1) :
    Ordered cap home (update cells pos (some c)) := by
  intro p hp a ha
  by_cases hpp : p = pos
  · subst hpp
    rw [update_self, Option.some.injEq] at ha
    subst ha
    rcases hnear with hzero | ⟨b, hb, hle⟩
    · exact Or.inl hzero
    · rcases hroom with hzero | hcap
      · exact Or.inl hzero
      · exact Or.inr ⟨b, by rw [update_of_ne (prev_ne hcap)]; exact hb, hle⟩
  · rw [update_of_ne hpp] at ha
    by_cases hprev : prev cap p = pos
    · -- the entry right behind
      have hpn : p = next cap pos := by rw [← hprev, next_prev hp]
      rw [hpn] at ha ⊢
      rcases hbehind a ha with hzero | hle
      · exact Or.inl hzero
      · right
        rw [prev_next hpos, update_self]
        exact ⟨c, rfl, hle⟩
    · rcases hcells p hp a ha with hzero | ⟨b, hb, hle⟩
      · exact Or.inl hzero
      · exact Or.inr ⟨b, by rw [update_of_ne hprev]; exact hb, hle⟩

theorem insertFrom_spec (hhome : ∀ a, home a < cap) :
    ∀ fuel g pos c (cells : ℕ → Option α), pos < cap → Ordered cap home cells →
      cells (ahead cap pos g) = none → away cap (home c) pos + g < cap → g < fuel →
      Near cap home cells pos (away cap (home c) pos) →
      ∃ cells', insertFrom cap home fuel (away cap (home c) pos) pos c cells = some cells' ∧
        Ordered cap home cells' ∧ contents cap cells' = c ::ₘ contents cap cells := by
  intro fuel
  induction fuel with
  | zero =>
    intro g pos c cells _ _ _ _ hfuel
    omega
  | succ fuel ih =>
    intro g pos c cells hpos hcells hempty hroom hfuel hnear
    rw [insertFrom]
    cases hcell : cells pos with
    | none =>
      refine ⟨_, rfl, ?_, ?_⟩
      · apply hcells.write hpos hnear
        · omega
        · intro e he
          rcases hcells _ (next_lt hpos) e he with hzero | ⟨b, hb, -⟩
          · exact Or.inl hzero
          · rw [prev_next hpos, hcell] at hb
            cases hb
      · have hupdate := contents_update cells hpos (some c)
        rw [hcell] at hupdate
        rw [← Multiset.singleton_add, add_comm]
        exact (add_zero _).symm.trans hupdate
    | some a =>
      dsimp only
      -- the empty bucket is still ahead
      have hg : 0 < g := by
        rcases Nat.eq_zero_or_pos g with rfl | hpos'
        · rw [ahead_zero hpos, hcell] at hempty
          cases hempty
        · exact hpos'
      have hempty' : cells (ahead cap (next cap pos) (g - 1)) = none := by
        rw [ahead_next hpos (by omega), Nat.sub_add_cancel hg]
        exact hempty
      by_cases hnearer : away cap (home a) pos < away cap (home c) pos
      · -- the entry there is nearer to home: it is carried on
        rw [if_pos hnearer]
        have hstep : away cap (home a) (next cap pos) = away cap (home a) pos + 1 :=
          away_next hpos (hhome a) (by omega)
        have hwritten : Ordered cap home (update cells pos (some c)) := by
          apply hcells.write hpos hnear
          · omega
          · intro e he
            rcases hcells _ (next_lt hpos) e he with hzero | ⟨b, hb, hle⟩
            · exact Or.inl hzero
            · rw [prev_next hpos] at hb hle
              rw [hcell, Option.some.injEq] at hb
              rw [← hb] at hle
              omega
        have hne : ahead cap (next cap pos) (g - 1) ≠ pos := by
          rw [ahead_next hpos (by omega), Nat.sub_add_cancel hg]
          exact ahead_ne hg (by omega)
        obtain ⟨cells', hrun, hordered, hcontents⟩ := ih (g - 1) (next cap pos) a
          (update cells pos (some c)) (next_lt hpos) hwritten
          (by rw [update_of_ne hne]; exact hempty') (by omega) (by omega)
          (by
            right
            rw [prev_next hpos, update_self, hstep]
            exact ⟨c, rfl, by omega⟩)
        rw [hstep] at hrun
        refine ⟨cells', hrun, hordered, ?_⟩
        have hupdate := contents_update cells hpos (some c)
        rw [hcell] at hupdate
        rw [hcontents, ← Multiset.singleton_add, add_comm, ← Multiset.singleton_add]
        exact hupdate.trans (add_comm _ _)
      · rw [if_neg hnearer]
        have hstep : away cap (home c) (next cap pos) = away cap (home c) pos + 1 :=
          away_next hpos (hhome c) (by omega)
        rw [← hstep]
        apply ih (g - 1) (next cap pos) c cells (next_lt hpos) hcells hempty' (by omega) (by omega)
        right
        rw [prev_next hpos, hstep]
        exact ⟨a, hcell, by omega⟩

end Insert

/-! ## Removing -/

section Remove
/-- The table is in order around a hole at `pos`: behind the hole stands an entry at home, or
one that may stand in the hole. -/
structure Holed (cells : ℕ → Option α) (pos : ℕ) : Prop where
  others : ∀ p < cap, p ≠ next cap pos → ∀ a, update cells pos none p = some a →
    Near cap home (update cells pos none) p (away cap (home a) p)
  behind : ∀ a, cells (next cap pos) = some a → away cap (home a) (next cap pos) = 0 ∨
    Near cap home (update cells pos none) pos (away cap (home a) (next cap pos) - 1)

variable {cap home} {cells : ℕ → Option α} {pos : ℕ}

theorem next_ne (hpos : pos < cap) (hcap : 2 ≤ cap) : next cap pos ≠ pos := by
  rw [next_eq_ahead hpos]
  exact ahead_ne Nat.one_pos hcap

theorem Ordered.holed (hcells : Ordered cap home cells) (hpos : pos < cap) (hcap : 2 ≤ cap) {x : α}
    (hx : cells pos = some x) : Holed cap home cells pos where
  others := by
    intro p hp hpn a ha
    have hpp : p ≠ pos := by
      rintro rfl
      rw [update_self] at ha
      cases ha
    rw [update_of_ne hpp] at ha
    rcases hcells p hp a ha with hzero | ⟨b, hb, hle⟩
    · exact Or.inl hzero
    · have hprev : prev cap p ≠ pos := by
        intro heq
        apply hpn
        rw [← heq, next_prev hp]
      exact Or.inr ⟨b, by rw [update_of_ne hprev]; exact hb, hle⟩
  behind := by
    intro a ha
    rcases hcells _ (next_lt hpos) a ha with hzero | ⟨b, hb, hle⟩
    · exact Or.inl hzero
    right
    rw [prev_next hpos] at hb hle
    rw [hx, Option.some.injEq] at hb
    rw [← hb] at hle
    rcases hcells pos hpos x hx with hzero | ⟨c, hc, hstep⟩
    · exact Or.inl (by omega)
    · exact Or.inr ⟨c, by rw [update_of_ne (prev_ne hcap)]; exact hc, by omega⟩

theorem Holed.close (h : Holed cap home cells pos) (hpos : pos < cap) (hcap : 2 ≤ cap)
    (hzero : ∀ a, cells (next cap pos) = some a → away cap (home a) (next cap pos) = 0) :
    Ordered cap home (update cells pos none) := by
  intro p hp a ha
  by_cases hpn : p = next cap pos
  · rw [hpn, update_of_ne (next_ne hpos hcap)] at ha
    rw [hpn]
    exact Or.inl (hzero a ha)
  · exact h.others p hp hpn a ha

section Move
variable {a : α} (hpos : pos < cap) (hcap : 3 ≤ cap) (hcell : cells (next cap pos) = some a)
include hpos hcap hcell

theorem Holed.move (h : Holed cap home cells pos) (hhome : ∀ a, home a < cap)
    (hfar : away cap (home a) (next cap pos) ≠ 0) :
    Holed cap home (update cells pos (some a)) (next cap pos) := by
  have hnext : next cap pos ≠ pos := next_ne hpos (by omega)
  have hnext2 : next cap (next cap pos) ≠ pos := by
    rw [next_eq_ahead hpos, next_ahead hpos (by omega)]
    exact ahead_ne (by omega) (by omega)
  have haway : away cap (home a) pos + 1 = away cap (home a) (next cap pos) :=
    away_of_next hpos (hhome a) hfar
  -- away from the two buckets nothing has changed
  have hsame : ∀ p, p ≠ pos → p ≠ next cap pos →
      update (update cells pos (some a)) (next cap pos) none p =
        update cells pos none p := by
    intro p hp hpn
    rw [update_of_ne hpn, update_of_ne hp, update_of_ne hp]
  have hfilled : update (update cells pos (some a)) (next cap pos) none pos =
      some a := by
    rw [update_of_ne hnext.symm, update_self]
  constructor
  · intro p hp hpn2 b hb
    by_cases hpn : p = next cap pos
    · rw [hpn, update_self] at hb
      cases hb
    by_cases hpp : p = pos
    · rw [hpp, hfilled, Option.some.injEq] at hb
      rw [hpp, ← hb]
      rcases h.behind a hcell with hzero | hzero | ⟨b', hb', hle⟩
      · exact absurd hzero hfar
      · exact Or.inl (by omega)
      · refine Or.inr ⟨b', ?_, by omega⟩
        rw [hsame _ (prev_ne (by omega))]
        · exact hb'
        · intro heq
          apply hnext2
          rw [← heq, next_prev hpos]
    · rw [hsame p hpp hpn] at hb
      rcases h.others p hp hpn b hb with hzero | ⟨b', hb', hle⟩
      · exact Or.inl hzero
      · refine Or.inr ⟨b', ?_, hle⟩
        rw [hsame]
        · exact hb'
        · intro heq
          apply hpn
          rw [← heq, next_prev hp]
        · intro heq
          apply hpn2
          rw [← heq, next_prev hp]
  · intro b hb
    rw [update_of_ne hnext2] at hb
    have hhole : update cells pos none (next cap (next cap pos)) = some b := by
      rw [update_of_ne hnext2]
      exact hb
    rcases h.others _ (next_lt (next_lt hpos)) (next_ne (next_lt hpos) (by omega)) b hhole with
      hzero | ⟨b', hb', hle⟩
    · exact Or.inl hzero
    · right
      right
      rw [prev_next (next_lt hpos)] at hb' hle
      rw [update_of_ne hnext, hcell, Option.some.injEq] at hb'
      rw [prev_next hpos, hfilled]
      exact ⟨a, rfl, by rw [← hb'] at hle; omega⟩

theorem contents_move :
    contents cap (update (update cells pos (some a)) (next cap pos) none) =
      contents cap (update cells pos none) := by
  have hfill := contents_update cells hpos (some a)
  have hopen := contents_update (update cells pos (some a)) (next_lt hpos) none
  have hhole := contents_update cells hpos none
  rw [update_of_ne (next_ne hpos (by omega)), hcell] at hopen
  apply add_right_cancel (b := ({a} : Multiset α) + (cells pos).elim 0 fun a => {a})
  calc contents cap (update (update cells pos (some a)) (next cap pos) none)
        + ({a} + (cells pos).elim 0 fun a => {a})
      = contents cap (update cells pos (some a)) +
          (cells pos).elim 0 (fun a => {a}) := by
        rw [← add_assoc]
        exact congrArg (· + _) (hopen.trans (add_zero _))
    _ = contents cap cells + {a} := hfill
    _ = contents cap (update cells pos none) +
          (cells pos).elim 0 (fun a => {a}) + {a} := by
        rw [hhole]
        exact congrArg (· + _) (add_zero _).symm
    _ = contents cap (update cells pos none) +
          ({a} + (cells pos).elim 0 fun a => {a}) := by abel

end Move

/-- Entries step back by one at most, and only on the way to the next empty bucket. -/
def Shifted (cap : ℕ) (cells cells' : ℕ → Option α) (pos g : ℕ) : Prop :=
  ∀ j < cap, ∀ a, cells' (ahead cap pos j) = some a →
    (j ≠ 0 ∧ cells (ahead cap pos j) = some a) ∨ (j < g ∧ cells (ahead cap pos (j + 1)) = some a)

theorem shifted_close (hpos : pos < cap) (g : ℕ) :
    Shifted cap cells (update cells pos none) pos g := by
  intro j hj a ha
  by_cases hj0 : j = 0
  · rw [hj0, ahead_zero hpos, update_self] at ha
    cases ha
  · rw [update_of_ne (ahead_ne (by omega) hj)] at ha
    exact Or.inl ⟨hj0, ha⟩

theorem Shifted.move {cells' : ℕ → Option α} {g : ℕ} {a : α} (hpos : pos < cap) (hg : 1 < g)
    (hcap : g < cap) (hcell : cells (next cap pos) = some a)
    (h : Shifted cap (update cells pos (some a)) cells' (next cap pos) (g - 1)) :
    Shifted cap cells cells' pos g := by
  intro j hj b hb
  by_cases hj0 : j = 0
  · -- the bucket that was filled is the last one the shift comes to
    have hlast : ahead cap (next cap pos) (cap - 1) = pos := by
      rw [ahead_next hpos (by omega), Nat.sub_add_cancel (by omega)]
      unfold ahead
      split_ifs <;> omega
    rw [hj0, ahead_zero hpos] at hb
    rcases h (cap - 1) (by omega) b (by rw [hlast]; exact hb) with ⟨-, hb'⟩ | ⟨hlt, -⟩
    · rw [hlast, update_self] at hb'
      right
      rw [hj0, Nat.zero_add, ← next_eq_ahead hpos, hcell]
      exact ⟨by omega, hb'⟩
    · omega
  · have hback : ahead cap pos j = ahead cap (next cap pos) (j - 1) := by
      rw [ahead_next hpos (by omega), Nat.sub_add_cancel (by omega)]
    rcases h (j - 1) (by omega) b (by rw [← hback]; exact hb) with ⟨-, hb'⟩ | ⟨hlt, hb'⟩
    · rw [← hback, update_of_ne (ahead_ne (by omega) hj)] at hb'
      exact Or.inl ⟨hj0, hb'⟩
    · rw [ahead_next hpos (by omega), Nat.sub_add_cancel (by omega),
        update_of_ne (ahead_ne (by omega) (by omega))] at hb'
      exact Or.inr ⟨by omega, hb'⟩

theorem removeFrom_spec (hhome : ∀ a, home a < cap) :
    ∀ fuel g pos (cells : ℕ → Option α), pos < cap → 0 < g → g < cap → g ≤ fuel →
      cells (ahead cap pos g) = none → Holed cap home cells pos →
      ∃ cells', removeFrom cap home fuel pos cells = some cells' ∧ Ordered cap home cells' ∧
        contents cap cells' = contents cap (update cells pos none) ∧
        Shifted cap cells cells' pos g := by
  intro fuel
  induction fuel with
  | zero =>
    intro g pos cells _ hg _ hfuel
    omega
  | succ fuel ih =>
    intro g pos cells hpos hg hcap hfuel hempty hholed
    rw [removeFrom]
    cases hcell : cells (next cap pos) with
    | none =>
      refine ⟨_, rfl, hholed.close hpos (by omega) ?_, rfl, shifted_close hpos g⟩
      intro a ha
      rw [hcell] at ha
      cases ha
    | some a =>
      dsimp only
      by_cases hfar : away cap (home a) (next cap pos) = 0
      · rw [if_pos hfar]
        refine ⟨_, rfl, hholed.close hpos (by omega) ?_, rfl, shifted_close hpos g⟩
        intro b hb
        rw [hcell, Option.some.injEq] at hb
        rw [← hb]
        exact hfar
      · rw [if_neg hfar]
        have hg1 : g ≠ 1 := by
          rintro rfl
          rw [← next_eq_ahead hpos, hcell] at hempty
          cases hempty
        have hempty' : update cells pos (some a) (ahead cap (next cap pos) (g - 1)) =
            none := by
          rw [ahead_next hpos (by omega), Nat.sub_add_cancel hg,
            update_of_ne (ahead_ne hg hcap)]
          exact hempty
        obtain ⟨cells', hrun, hordered, hcontents, hshifted⟩ := ih (g - 1) (next cap pos)
          (update cells pos (some a)) (next_lt hpos) (by omega) (by omega) (by omega)
          hempty' (hholed.move hpos (by omega) hcell hhome hfar)
        exact ⟨cells', hrun, hordered, hcontents.trans (contents_move hpos (by omega) hcell),
          hshifted.move hpos (by omega) hcap hcell⟩

end Remove

/-! ## Collecting -/

section Collect
variable {cap home} {cells : ℕ → Option α} {h : ℕ}

theorem collect_eq (hcells : Ordered cap home cells) (hhome : ∀ a, home a < cap) (hh : h < cap)
    {hit : α → Bool} (hhit : ∀ a, hit a = true → home a = h) :
    ∀ left k, k + left = cap → collect cap home hit cells left k (ahead cap h k) =
      (List.range' k left).filterMap fun j => (cells (ahead cap h j)).filter hit := by
  intro left
  induction left with
  | zero =>
    intro k _
    rfl
  | succ left ih =>
    intro k hk
    have hnone : (∀ b, cells (ahead cap h k) = some b →
        hit b = false ∧ away cap (home b) (ahead cap h k) < k) →
        (List.range' k (left + 1)).filterMap
          (fun j => (cells (ahead cap h j)).filter hit) = [] := by
      intro hstop
      apply List.filterMap_eq_nil_iff.mpr
      intro j hj
      have hrange := List.mem_range'_1.mp hj
      rw [Option.filter_eq_none_iff]
      intro a ha htrue
      have hlt := hcells.none_beyond hhome (fun b hb => (hstop b hb).2)
        (ahead_lt hh (by omega)) ha (hhit a htrue)
      rw [away_ahead (by omega)] at hlt
      omega
    rw [collect]
    cases hcell : cells (ahead cap h k) with
    | none =>
      rw [hnone]
      intro b hb
      rw [hcell] at hb
      cases hb
    | some a =>
      dsimp only
      by_cases hfound : hit a = true
      · rw [if_pos hfound, next_ahead hh (by omega), ih (k + 1) (by omega), List.range'_succ,
          List.filterMap_cons, hcell, Option.filter_some, if_pos hfound]
      rw [if_neg hfound]
      rw [Bool.not_eq_true] at hfound
      by_cases hnear : away cap (home a) (ahead cap h k) < k
      · rw [if_pos hnear, hnone]
        intro b hb
        rw [hcell, Option.some.injEq] at hb
        rw [← hb]
        exact ⟨hfound, hnear⟩
      · rw [if_neg hnear, next_ahead hh (by omega), ih (k + 1) (by omega), List.range'_succ,
          List.filterMap_cons, hcell, Option.filter_some, if_neg (by simp [hfound])]

theorem search_eq (same verify : α → Bool) (cells : ℕ → Option α) (left dist pos : ℕ) :
    search cap home same verify cells left dist pos =
      (collect cap home same cells left dist pos).find? verify := by
  induction left generalizing dist pos with
  | zero => rfl
  | succ left ih =>
    rw [search, collect]
    cases hcell : cells pos with
    | none => rfl
    | some a =>
      dsimp only
      by_cases hsame : same a = true
      · rw [if_pos hsame, if_pos hsame, List.find?_cons]
        by_cases hverify : verify a = true
        · rw [if_pos hverify, hverify]
        · rw [if_neg hverify, ih]
          rw [Bool.not_eq_true] at hverify
          rw [hverify]
      · rw [if_neg hsame, if_neg hsame]
        split_ifs with hnear
        · rfl
        · exact ih _ _

theorem contents_eq_list (cells : ℕ → Option α) :
    contents cap cells = ((List.range cap).filterMap cells : Multiset α) := by
  rw [contents]
  induction cap with
  | zero => rfl
  | succ n ih =>
    rw [Finset.sum_range_succ, ih, List.range_succ, List.filterMap_append, ← Multiset.coe_add]
    congr 1
    cases hcell : cells n with
    | none => simp [hcell]
    | some a => simp [hcell]

theorem range_map_ahead_perm (hh : h < cap) :
    ((List.range cap).map (ahead cap h)).Perm (List.range cap) := by
  rw [List.perm_ext_iff_of_nodup _ List.nodup_range]
  · intro p
    rw [List.mem_map, List.mem_range]
    constructor
    · rintro ⟨j, hj, rfl⟩
      exact ahead_lt hh (List.mem_range.mp hj).le
    · intro hp
      exact ⟨away cap h p, List.mem_range.mpr (away_lt hp hh), ahead_away hp hh⟩
  · apply List.Nodup.map_on _ List.nodup_range
    intro j hj k hk heq
    exact ahead_inj (List.mem_range.mp hj) (List.mem_range.mp hk) heq

theorem collect_contents (hcells : Ordered cap home cells) (hhome : ∀ a, home a < cap) (hh : h < cap)
    {hit : α → Bool} (hhit : ∀ a, hit a = true → home a = h) :
    (collect cap home hit cells cap 0 h : Multiset α) =
      (contents cap cells).filter fun a => hit a = true := by
  have hwalk := collect_eq hcells hhome hh hhit cap 0 (by omega)
  rw [ahead_zero hh, ← List.range_eq_range'] at hwalk
  have haround : (List.range cap).filterMap (fun j => (cells (ahead cap h j)).filter hit) =
      (((List.range cap).map (ahead cap h)).filterMap cells).filter hit := by
    rw [List.filterMap_map, List.filter_filterMap]
    rfl
  have hperm := ((range_map_ahead_perm hh).filterMap cells).filter hit
  rw [hwalk, haround, contents_eq_list, Multiset.filter_coe]
  simpa using Multiset.coe_eq_coe.mpr hperm

end Collect

/-! ## The table as a whole -/

section Whole
variable {cap home} {cells : ℕ → Option α}

theorem ordered_empty : Ordered cap home fun _ => (none : Option α) := by
  intro p _ a ha
  cases ha

@[simp] theorem contents_empty : contents cap (fun _ => (none : Option α)) = 0 := by
  rw [contents]
  exact Finset.sum_const_zero

theorem exists_empty_ahead (hcard : (contents cap cells).card < cap) {h : ℕ} (hh : h < cap) :
    ∃ g < cap, cells (ahead cap h g) = none := by
  obtain ⟨p, hp, hempty⟩ := exists_empty hcard
  refine ⟨away cap h p, away_lt hp hh, ?_⟩
  rw [ahead_away hp hh]
  exact hempty

variable (hcells : Ordered cap home cells) (hhome : ∀ a, home a < cap)
  (hcard : (contents cap cells).card < cap)
include hcells hhome hcard

theorem Ordered.probe {h : ℕ} (hh : h < cap) {hit : α → Bool}
    (hhit : ∀ a, hit a = true → home a = h) :
    (probe cap home hit cells cap 0 h = some none ∧ ∀ a ∈ contents cap cells, hit a = false) ∨
      ∃ p < cap, ∃ a, probe cap home hit cells cap 0 h = some (some p) ∧ cells p = some a ∧
        hit a = true := by
  obtain ⟨g, hg, hempty⟩ := exists_empty_ahead hcard hh
  obtain ⟨r, hr, hmiss, hfound⟩ := probe_spec hcells hhome hh hhit hg hempty cap 0 (by omega)
    (by omega) (fun j hj => absurd hj (Nat.not_lt_zero j))
  rw [ahead_zero hh] at hr
  cases r with
  | none =>
    refine Or.inl ⟨hr, ?_⟩
    intro a ha
    obtain ⟨p, hp, hcell⟩ := mem_contents.mp ha
    exact hmiss rfl p hp a hcell
  | some p =>
    obtain ⟨hp, a, hcell, hhit⟩ := hfound p rfl
    exact Or.inr ⟨p, hp, a, hr, hcell, hhit⟩

theorem Ordered.insert (c : α) :
    ∃ cells', insertFrom cap home cap 0 (home c) c cells = some cells' ∧
      Ordered cap home cells' ∧ contents cap cells' = c ::ₘ contents cap cells := by
  have haway : away cap (home c) (home c) = 0 := by
    rw [away, if_pos (Nat.le_refl _), Nat.sub_self]
  obtain ⟨g, hg, hempty⟩ := exists_empty_ahead hcard (hhome c)
  have hspec := insertFrom_spec hhome cap g (home c) c cells (hhome c) hcells hempty
    (by omega) hg (Or.inl haway)
  rwa [haway] at hspec

/-- An entry is taken out; the others step back by one at most, over taken buckets. -/
theorem Ordered.remove {pos : ℕ} (hpos : pos < cap) {x : α} (hx : cells pos = some x) :
    ∃ cells', removeFrom cap home cap pos cells = some cells' ∧ Ordered cap home cells' ∧
      contents cap cells = x ::ₘ contents cap cells' ∧
      ∃ g < cap, Shifted cap cells cells' pos g := by
  obtain ⟨g, hg, hempty⟩ := exists_empty_ahead hcard hpos
  have hg0 : g ≠ 0 := by
    rintro rfl
    rw [ahead_zero hpos, hx] at hempty
    cases hempty
  obtain ⟨cells', hrun, hordered, hcontents, hshifted⟩ := removeFrom_spec hhome cap g pos cells hpos
    (by omega) hg hg.le hempty (hcells.holed hpos (by omega) hx)
  refine ⟨cells', hrun, hordered, ?_, g, hg, hshifted⟩
  have hhole := contents_update cells hpos none
  rw [hx] at hhole
  rw [hcontents, ← Multiset.singleton_add, add_comm]
  exact ((add_zero _).symm.trans hhole.symm)

end Whole

/-! ## Sweeping

The sweep removes from the buckets it scans, and every removal pulls entries back.  None of
them comes past the bucket the sweep is at: a run that wraps is pulled over the end of the
table from buckets that were swept already. -/

section Sweep
variable {cap home} {victim : α → Bool}

def Swept (victim : α → Bool) (cells : ℕ → Option α) (n : ℕ) : Prop :=
  ∀ q < n, ∀ a, cells q = some a → victim a = false

theorem Swept.shift {cells cells' : ℕ → Option α} {pos g : ℕ} (h : Swept victim cells pos)
    (hpos : pos < cap) (hg : g < cap) (hshift : Shifted cap cells cells' pos g) :
    Swept victim cells' pos := by
  intro q hq a ha
  have hq' : ahead cap pos (away cap pos q) = q := ahead_away (by omega) hpos
  have haway : away cap pos q + pos = q + cap := by
    rw [away, if_neg (by omega)]
    omega
  rcases hshift (away cap pos q) (away_lt (by omega) hpos) a (by rw [hq']; exact ha) with
    ⟨-, hcell⟩ | ⟨hlt, hcell⟩
  · rw [hq'] at hcell
    exact h q hq a hcell
  · have hnext : ahead cap pos (away cap pos q + 1) = q + 1 := by
      rw [ahead, if_neg (by omega)]
      omega
    rw [hnext] at hcell
    exact h (q + 1) (by omega) a hcell

/-- What a part of the sweep does: it takes out victims only, and counts them. -/
structure Cleared (cap : ℕ) (home : α → ℕ) (victim : α → Bool) (cells cells' : ℕ → Option α)
    (n : ℕ) : Prop where
  ordered : Ordered cap home cells'
  gone : ∃ gone : Multiset α, (∀ a ∈ gone, victim a = true) ∧
    contents cap cells = gone + contents cap cells' ∧ gone.card = n

theorem Cleared.card_le {cells cells' : ℕ → Option α} {n : ℕ}
    (h : Cleared cap home victim cells cells' n) :
    (contents cap cells').card ≤ (contents cap cells).card := by
  obtain ⟨gone, -, hsum, -⟩ := h.gone
  rw [hsum, Multiset.card_add]
  omega

theorem Cleared.trans {cells cells' cells'' : ℕ → Option α} {n n' : ℕ}
    (h : Cleared cap home victim cells cells' n) (h' : Cleared cap home victim cells' cells'' n') :
    Cleared cap home victim cells cells'' (n + n') := by
  obtain ⟨gone, hvictims, hsum, hcard⟩ := h.gone
  obtain ⟨gone', hvictims', hsum', hcard'⟩ := h'.gone
  refine ⟨h'.ordered, gone + gone', ?_, ?_, ?_⟩
  · intro a ha
    rcases Multiset.mem_add.mp ha with hmem | hmem
    · exact hvictims a hmem
    · exact hvictims' a hmem
  · rw [hsum, hsum', add_assoc]
  · rw [Multiset.card_add, hcard, hcard']

theorem Ordered.cleared {cells : ℕ → Option α} (h : Ordered cap home cells) :
    Cleared cap home victim cells cells 0 :=
  ⟨h, 0, fun _ ha => absurd ha (Multiset.notMem_zero _), (zero_add _).symm, rfl⟩

theorem clearAt_spec (hhome : ∀ a, home a < cap) {pos : ℕ} (hpos : pos < cap) :
    ∀ fuel (cells : ℕ → Option α), Ordered cap home cells → (contents cap cells).card < cap →
      (contents cap cells).card < fuel → Swept victim cells pos →
      ∃ cells' n, clearAt cap home victim pos fuel cells = some (cells', n) ∧
        Cleared cap home victim cells cells' n ∧ Swept victim cells' (pos + 1) := by
  intro fuel
  induction fuel with
  | zero =>
    intro cells _ _ hfuel
    omega
  | succ fuel ih =>
    intro cells hcells hcard hfuel hswept
    -- the sweep leaves a bucket when no victim stands in it
    have hdone : (∀ a, cells pos = some a → victim a = false) → Swept victim cells (pos + 1) := by
      intro hpos' q hq a ha
      by_cases hqp : q = pos
      · rw [hqp] at ha
        exact hpos' a ha
      · exact hswept q (by omega) a ha
    rw [clearAt]
    cases hcell : cells pos with
    | none =>
      refine ⟨cells, 0, rfl, hcells.cleared, hdone ?_⟩
      intro a ha
      rw [hcell] at ha
      cases ha
    | some a =>
      dsimp only
      by_cases hvictim : victim a = true
      · rw [if_pos hvictim]
        obtain ⟨cells', hrun, hordered, hcontents, g, hg, hshift⟩ :=
          hcells.remove hhome hcard hpos hcell
        have hone : Cleared cap home victim cells cells' 1 := by
          refine ⟨hordered, {a}, ?_, ?_, Multiset.card_singleton a⟩
          · intro b hb
            rw [Multiset.mem_singleton.mp hb]
            exact hvictim
          · rw [hcontents, Multiset.singleton_add]
        rw [hcontents, Multiset.card_cons] at hcard hfuel
        obtain ⟨cells'', n, hrest, hcleared, hswept'⟩ := ih cells' hordered (by omega) (by omega)
          (hswept.shift hpos hg hshift)
        refine ⟨cells'', n + 1, ?_, ?_, hswept'⟩
        · rw [hrun, Option.bind_some, hrest, Option.map_some]
        · rw [Nat.add_comm]
          exact hone.trans hcleared
      · rw [if_neg hvictim]
        refine ⟨cells, 0, rfl, hcells.cleared, hdone ?_⟩
        intro b hb
        rw [hcell, Option.some.injEq] at hb
        rw [← hb]
        exact Bool.not_eq_true _ ▸ hvictim

theorem clearUpTo_spec (victim : α → Bool) (hhome : ∀ a, home a < cap) {cells : ℕ → Option α}
    (hcells : Ordered cap home cells) (hcard : (contents cap cells).card < cap) :
    ∀ n ≤ cap, ∃ cells' k, clearUpTo cap home victim n cells = some (cells', k) ∧
      Cleared cap home victim cells cells' k ∧ Swept victim cells' n := by
  intro n
  induction n with
  | zero =>
    intro _
    exact ⟨cells, 0, rfl, hcells.cleared, fun q hq => absurd hq (Nat.not_lt_zero q)⟩
  | succ n ih =>
    intro hn
    obtain ⟨cells', k, hrun, hcleared, hswept⟩ := ih (by omega)
    have hle := hcleared.card_le
    obtain ⟨cells'', k', hrun', hcleared', hswept'⟩ := clearAt_spec hhome (by omega) (cap + 1)
      cells' hcleared.ordered (by omega) (by omega) hswept
    refine ⟨cells'', k + k', ?_, hcleared.trans hcleared', hswept'⟩
    rw [clearUpTo, hrun, Option.bind_some, hrun', Option.map_some]

theorem Ordered.clear {cells : ℕ → Option α} (hcells : Ordered cap home cells)
    (hhome : ∀ a, home a < cap) (hcard : (contents cap cells).card < cap) (victim : α → Bool) :
    ∃ cells' n, clearUpTo cap home victim cap cells = some (cells', n) ∧
      Ordered cap home cells' ∧
      contents cap cells' = (contents cap cells).filter (fun a => victim a = false) ∧
      (contents cap cells').card + n = (contents cap cells).card := by
  obtain ⟨cells', n, hrun, hcleared, hswept⟩ :=
    clearUpTo_spec victim hhome hcells hcard cap le_rfl
  obtain ⟨gone, hgone, hsum, hn⟩ := hcleared.gone
  refine ⟨cells', n, hrun, hcleared.ordered, ?_, ?_⟩
  · have hnone : gone.filter (fun a => victim a = false) = 0 := by
      rw [Multiset.filter_eq_nil]
      intro a ha
      simp [hgone a ha]
    have hall : (contents cap cells').filter (fun a => victim a = false) = contents cap cells' := by
      rw [Multiset.filter_eq_self]
      intro a ha
      obtain ⟨p, hp, hcell⟩ := mem_contents.mp ha
      exact hswept p hp a hcell
    rw [hsum, Multiset.filter_add, hnone, hall, zero_add]
  · rw [hsum, Multiset.card_add, hn, Nat.add_comm]

end Sweep

end BcpFlux.Library.RobinHood
