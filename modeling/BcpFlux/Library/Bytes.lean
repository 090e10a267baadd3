import Mathlib.Algebra.Group.Nat.Defs
import Mathlib.Data.List.Basic
import Mathlib.Data.Nat.Init

/-! # Byte strings

Little-endian integers of a fixed width, masking by exclusive or, and the order
`memcmp` puts on byte strings.
-/

namespace BcpFlux.Library

/-- The low `width` bytes of `n`, least significant first. -/
def leBytes : ℕ → ℕ → List UInt8
  | 0, _ => []
  | width + 1, n => UInt8.ofNat n :: leBytes width (n / 256)

def ofLeBytes : List UInt8 → ℕ
  | [] => 0
  | b :: bytes => b.toNat + 256 * ofLeBytes bytes

@[simp] theorem leBytes_length (width n : ℕ) : (leBytes width n).length = width := by
  induction width generalizing n with
  | zero => rfl
  | succ width ih => simp [leBytes, ih]

theorem ofLeBytes_leBytes (width n : ℕ) : ofLeBytes (leBytes width n) = n % 256 ^ width := by
  induction width generalizing n with
  | zero => simp [leBytes, ofLeBytes, Nat.mod_one]
  | succ width ih =>
    simp only [leBytes, ofLeBytes, ih]
    rw [Nat.pow_succ', Nat.mod_mul]
    simp

theorem leBytes_inj {width m n : ℕ} (hm : m < 256 ^ width) (hn : n < 256 ^ width)
    (h : leBytes width m = leBytes width n) : m = n := by
  have heq := congrArg ofLeBytes h
  rwa [ofLeBytes_leBytes, ofLeBytes_leBytes, Nat.mod_eq_of_lt hm, Nat.mod_eq_of_lt hn] at heq

/-! ## Masking -/

def xorBytes (a b : List UInt8) : List UInt8 := a.zipWith (· ^^^ ·) b

@[simp] theorem xorBytes_length (a b : List UInt8) :
    (xorBytes a b).length = min a.length b.length := by
  simp [xorBytes]

theorem xorBytes_cancel (a mask : List UInt8) (h : a.length ≤ mask.length) :
    xorBytes (xorBytes a mask) mask = a := by
  apply List.ext_getElem
  · simp only [xorBytes_length]
    omega
  · intro i _ _
    simp only [xorBytes, List.getElem_zipWith]
    rw [UInt8.xor_assoc, UInt8.xor_self, UInt8.xor_zero]

/-! ## Order -/

/-- `memcmp(a, b, n) < 0` on strings of one length. -/
def bytesLt : List UInt8 → List UInt8 → Bool
  | a :: as, b :: bs => if a < b then true else if b < a then false else bytesLt as bs
  | _, _ => false

theorem bytesLt_swap (as bs : List UInt8) (hlen : as.length = bs.length) (hne : as ≠ bs) :
    bytesLt bs as = !bytesLt as bs := by
  induction as generalizing bs with
  | nil =>
    cases bs with
    | nil => exact absurd rfl hne
    | cons b bs => simp at hlen
  | cons a as ih =>
    cases bs with
    | nil => simp at hlen
    | cons b bs =>
      simp only [bytesLt]
      by_cases hab : a < b
      · have hba : ¬ b < a := UInt8.lt_asymm hab
        simp [hab, hba]
      · by_cases hba : b < a
        · simp [hab, hba]
        · have heq : a = b := UInt8.le_antisymm (UInt8.not_lt.mp hba) (UInt8.not_lt.mp hab)
          subst heq
          simp only [UInt8.lt_irrefl, if_false]
          exact ih bs (by simpa using hlen) (fun h => hne (by rw [h]))

end BcpFlux.Library
