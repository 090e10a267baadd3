import BcpFlux.Library.RobinHood
import Mathlib.Data.Finmap

/-! # An index over Robin Hood hashing

Entries with a key, the hash of the key and a value, standing in the bucket of their hash.
As long as one bucket is empty the index is a finite map: a probe answers as the map does,
an insertion of a new key and a removal do to the index what they do to the map.
-/

namespace BcpFlux.Library.HashIndex
open RobinHood

structure Entry (κ ν : Type*) where
  hash : ℕ
  key : κ
  value : ν
deriving DecidableEq

variable {κ ν : Type*}

def Entry.home (cap : ℕ) (e : Entry κ ν) : ℕ := e.hash % cap

def Entry.pair (e : Entry κ ν) : Sigma fun _ : κ => ν := ⟨e.key, e.value⟩

variable (cap : ℕ)

/-- The writer's probe for a key. -/
def findPos [DecidableEq κ] (cells : ℕ → Option (Entry κ ν)) (hash : ℕ) (key : κ) : Option (Option ℕ) :=
  probe cap (Entry.home cap) (fun e => e.hash = hash ∧ e.key = key) cells cap 0 (hash % cap)

def insertEntry (cells : ℕ → Option (Entry κ ν)) (hash : ℕ) (key : κ) (value : ν) :
    Option (ℕ → Option (Entry κ ν)) :=
  insertFrom cap (Entry.home cap) cap 0 (hash % cap) ⟨hash, key, value⟩ cells

def removeEntryAt (cells : ℕ → Option (Entry κ ν)) (pos : ℕ) : Option (ℕ → Option (Entry κ ν)) :=
  removeFrom cap (Entry.home cap) cap pos cells

/-- The reader's probe: it sees hashes and values, and settles the key with `verify`. -/
def lookup (cells : ℕ → Option (Entry κ ν)) (hash : ℕ) (verify : ν → Bool) : Option ν :=
  (search cap (Entry.home cap) (fun e => e.hash = hash) (fun e => verify e.value) cells cap 0
    (hash % cap)).map Entry.value

/-- The index holds the map `m`. -/
structure Holds (hash : κ → ℕ) (cells : ℕ → Option (Entry κ ν)) (m : Finmap fun _ : κ => ν) :
    Prop where
  ordered : Ordered cap (Entry.home cap) cells
  hashed : ∀ e ∈ contents cap cells, e.hash = hash e.key
  entries : (contents cap cells).map Entry.pair = m.entries

variable {cap} {hash : κ → ℕ} {cells : ℕ → Option (Entry κ ν)} {m : Finmap fun _ : κ => ν}

theorem holds_empty : Holds cap hash (fun _ => none) (∅ : Finmap fun _ : κ => ν) where
  ordered := ordered_empty
  hashed e he := by
    rw [contents_empty] at he
    exact absurd he (Multiset.notMem_zero e)
  entries := by
    rw [contents_empty]
    rfl

theorem home_lt (hroom : m.entries.card < cap) (e : Entry κ ν) : e.home cap < cap :=
  Nat.mod_lt _ (by omega)

theorem Holds.card_contents (h : Holds cap hash cells m) :
    (contents cap cells).card = m.entries.card := by
  rw [← h.entries, Multiset.card_map]

variable [DecidableEq κ]

theorem lookup_insert_iff {k a : κ} {v w : ν} : (m.insert k v).lookup a = some w ↔
    (a = k ∧ w = v) ∨ (a ≠ k ∧ m.lookup a = some w) := by
  by_cases hsame : a = k
  · subst hsame
    simp [Finmap.lookup_insert, eq_comm]
  · simp [hsame, Finmap.lookup_insert_of_ne]

theorem lookup_erase_iff {k a : κ} {w : ν} :
    (m.erase k).lookup a = some w ↔ a ≠ k ∧ m.lookup a = some w := by
  by_cases hsame : a = k
  · subst hsame
    simp [Finmap.lookup_erase]
  · simp [hsame, Finmap.lookup_erase_ne]

theorem lookup_insert_new {k a : κ} {v w : ν} (hnew : m.lookup k = none) (hne : w ≠ v) :
    (m.insert k v).lookup a = some w ↔ m.lookup a = some w := by
  rw [lookup_insert_iff, or_iff_right fun h => hne h.2]
  refine and_iff_right_of_imp fun ha heq => ?_
  rw [heq, hnew] at ha
  cases ha

theorem entries_eq_cons_erase {k : κ} {v : ν} (h : m.lookup k = some v) :
    m.entries = ⟨k, v⟩ ::ₘ (m.erase k).entries := by
  have hback : (m.erase k).insert k v = m := by
    apply Finmap.ext_lookup
    intro j
    by_cases hj : j = k
    · rw [hj, Finmap.lookup_insert, h]
    · rw [Finmap.lookup_insert_of_ne _ hj, Finmap.lookup_erase_ne hj]
  conv_lhs => rw [← hback]
  exact Finmap.entries_insert_of_notMem Finmap.notMem_erase_self

namespace Holds
variable (h : Holds cap hash cells m)
include h

theorem mem_contents_iff {e : Entry κ ν} :
    e ∈ contents cap cells ↔ e.hash = hash e.key ∧ m.lookup e.key = some e.value := by
  constructor
  · intro he
    refine ⟨h.hashed e he, ?_⟩
    rw [Finmap.lookup_eq_some_iff, ← h.entries]
    exact Multiset.mem_map_of_mem Entry.pair he
  · rintro ⟨hhash, hlookup⟩
    rw [Finmap.lookup_eq_some_iff, ← h.entries] at hlookup
    obtain ⟨e', he', hpair⟩ := Multiset.mem_map.mp hlookup
    obtain ⟨hash', key', value'⟩ := e'
    obtain ⟨hash₀, key₀, value₀⟩ := e
    obtain ⟨rfl, rfl⟩ : key' = key₀ ∧ value' = value₀ := by
      simpa [Entry.pair] using hpair
    have hhash' := h.hashed _ he'
    dsimp only at hhash hhash'
    rw [hhash, ← hhash']
    exact he'

theorem lookup_of_cell {p : ℕ} (hp : p < cap) {e : Entry κ ν} (he : cells p = some e) :
    m.lookup e.key = some e.value :=
  (h.mem_contents_iff.mp (mem_contents.mpr ⟨p, hp, he⟩)).2

variable (hroom : m.entries.card < cap)
include hroom

theorem findPos_cases (k : κ) :
    (m.lookup k = none ∧ findPos cap cells (hash k) k = some none) ∨
      ∃ p < cap, ∃ v, m.lookup k = some v ∧ findPos cap cells (hash k) k = some (some p) ∧
        cells p = some ⟨hash k, k, v⟩ := by
  have hhit : ∀ e : Entry κ ν, decide (e.hash = hash k ∧ e.key = k) = true →
      e.home cap = hash k % cap := by
    intro e he
    rw [Entry.home, (of_decide_eq_true he).1]
  rcases h.ordered.probe (home_lt hroom) (by rw [h.card_contents]; exact hroom)
    (Nat.mod_lt _ (by omega)) hhit with ⟨hrun, hnone⟩ | ⟨p, hp, e, hrun, hcell, hfound⟩
  · left
    refine ⟨?_, hrun⟩
    cases hlookup : m.lookup k with
    | none => rfl
    | some v =>
      have hfalse := hnone ⟨hash k, k, v⟩ (h.mem_contents_iff.mpr ⟨rfl, hlookup⟩)
      simp at hfalse
  · right
    obtain ⟨hash', key', value'⟩ := e
    have hsame : hash' = hash k ∧ key' = k := of_decide_eq_true hfound
    rw [hsame.1, hsame.2] at hcell
    exact ⟨p, hp, value', h.lookup_of_cell hp hcell, hrun, hcell⟩

theorem insertEntry_holds {k : κ} (hnew : m.lookup k = none) (v : ν) :
    ∃ cells', insertEntry cap cells (hash k) k v = some cells' ∧
      Holds cap hash cells' (m.insert k v) := by
  obtain ⟨cells', hrun, hordered, hcontents⟩ := h.ordered.insert (home_lt hroom)
    (by rw [h.card_contents]; exact hroom) ⟨hash k, k, v⟩
  refine ⟨cells', hrun, hordered, ?_, ?_⟩
  · intro e he
    rw [hcontents, Multiset.mem_cons] at he
    rcases he with rfl | hold
    · rfl
    · exact h.hashed e hold
  · rw [hcontents, Multiset.map_cons, h.entries,
      Finmap.entries_insert_of_notMem (Finmap.lookup_eq_none.mp hnew)]
    rfl

theorem removeEntryAt_holds {p : ℕ} (hp : p < cap) {e : Entry κ ν} (he : cells p = some e) :
    ∃ cells', removeEntryAt cap cells p = some cells' ∧ Holds cap hash cells' (m.erase e.key) := by
  obtain ⟨cells', hrun, hordered, hcontents, -⟩ := h.ordered.remove (home_lt hroom)
    (by rw [h.card_contents]; exact hroom) hp he
  refine ⟨cells', hrun, hordered, ?_, ?_⟩
  · intro e' he'
    apply h.hashed e'
    rw [hcontents]
    exact Multiset.mem_cons_of_mem he'
  · have hentries := h.entries
    rw [hcontents, Multiset.map_cons, entries_eq_cons_erase (h.lookup_of_cell hp he)] at hentries
    exact (Multiset.cons_inj_right _).mp hentries

theorem lookup_eq {k : κ} {verify : ν → Bool}
    (hverify : ∀ k' v, m.lookup k' = some v → (verify v = true ↔ k' = k)) :
    lookup cap cells (hash k) verify = m.lookup k := by
  have hhit : ∀ e : Entry κ ν, decide (e.hash = hash k) = true → e.home cap = hash k % cap := by
    intro e he
    rw [Entry.home, of_decide_eq_true he]
  have hcollect := collect_contents h.ordered (home_lt hroom) (Nat.mod_lt _ (by omega)) hhit
  have hmem : ∀ e, e ∈ collect cap (Entry.home cap) (fun e : Entry κ ν => e.hash = hash k) cells
      cap 0 (hash k % cap) ↔ e ∈ contents cap cells ∧ e.hash = hash k := by
    intro e
    rw [← Multiset.mem_coe, hcollect, Multiset.mem_filter, decide_eq_true_iff]
  rw [HashIndex.lookup, search_eq]
  cases hfind : (collect cap (Entry.home cap) (fun e : Entry κ ν => e.hash = hash k) cells
      cap 0 (hash k % cap)).find? fun e => verify e.value with
  | none =>
    cases hlookup : m.lookup k with
    | none => rfl
    | some v =>
      have hin := (hmem ⟨hash k, k, v⟩).mpr ⟨h.mem_contents_iff.mpr ⟨rfl, hlookup⟩, rfl⟩
      exact absurd ((hverify k v hlookup).mpr rfl) (List.find?_eq_none.mp hfind _ hin)
  | some e =>
    have hin := ((hmem e).mp (List.mem_of_find?_eq_some hfind)).1
    have hbound := (h.mem_contents_iff.mp hin).2
    have hvalue : verify e.value = true := List.find?_some (p := fun e : Entry κ ν => verify e.value) hfind
    have hkey := (hverify e.key e.value hbound).mp hvalue
    rw [← hkey, hbound]
    rfl

end Holds

end BcpFlux.Library.HashIndex
