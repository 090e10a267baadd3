import BcpFlux.Library.Bytes

/-! # Runs of encoded values

Fixed-width fields at the front of a byte string, and a reader applied until it stops.
A value whose reader inverts its writer in front of any remainder survives in a run of
such values, and what is left for the reader afterwards is the remainder alone.
-/

namespace BcpFlux.Library

/-! ## Fields -/

theorem take_leBytes (width n : ℕ) (rest : List UInt8) :
    (leBytes width n ++ rest).take width = leBytes width n := by
  apply List.take_left'
  exact leBytes_length width n

theorem drop_leBytes (width n : ℕ) (rest : List UInt8) :
    (leBytes width n ++ rest).drop width = rest := by
  apply List.drop_left'
  exact leBytes_length width n

theorem ofLeBytes_leBytes_of_lt {width n : ℕ} (h : n < 256 ^ width) :
    ofLeBytes (leBytes width n) = n := by
  rw [ofLeBytes_leBytes, Nat.mod_eq_of_lt h]

/-! ## Runs -/

section Runs
variable {α : Type} (read : List UInt8 → Option (α × List UInt8))

/-- Values read off the front until the reader stops, `fuel` of them at most. -/
def readAll : ℕ → List UInt8 → List α
  | 0, _ => []
  | fuel + 1, bytes =>
    match read bytes with
    | none => []
    | some (a, rest) => a :: readAll fuel rest

theorem readAll_none {bytes : List UInt8} (h : read bytes = none) (fuel : ℕ) :
    readAll read fuel bytes = [] := by
  cases fuel with
  | zero => rfl
  | succ fuel => simp [readAll, h]

theorem readAll_some {bytes rest : List UInt8} {a : α} (h : read bytes = some (a, rest))
    (fuel : ℕ) : readAll read (fuel + 1) bytes = a :: readAll read fuel rest := by
  simp [readAll, h]

theorem readAll_flatMap {write : α → List UInt8} {as : List α}
    (hread : ∀ a ∈ as, ∀ rest, read (write a ++ rest) = some (a, rest)) (fuel : ℕ)
    (rest : List UInt8) :
    readAll read (as.length + fuel) (as.flatMap write ++ rest) = as ++ readAll read fuel rest := by
  induction as with
  | nil => simp
  | cons a as ih =>
    have hhead := hread a (List.mem_cons_self) (as.flatMap write ++ rest)
    have htail := ih fun b hb => hread b (List.mem_cons_of_mem a hb)
    rw [List.flatMap_cons, List.append_assoc, List.length_cons, Nat.add_right_comm,
      readAll_some read hhead, htail, List.cons_append]

end Runs

theorem length_le_flatMap {α : Type} {write : α → List UInt8} {as : List α}
    (h : ∀ a ∈ as, 0 < (write a).length) : as.length ≤ (as.flatMap write).length := by
  induction as with
  | nil => simp
  | cons a as ih =>
    have hhead := h a (List.mem_cons_self)
    have htail := ih fun b hb => h b (List.mem_cons_of_mem a hb)
    simp only [List.flatMap_cons, List.length_cons, List.length_append]
    omega

end BcpFlux.Library
