import Mathlib.Algebra.Group.Nat.Defs

/-! # Words, clocks and addresses shared by the whole model

Machine words are naturals with the wrap written out where the source can reach
it.  Pool indices that the source marks with an `INVALID` sentinel are optional.
-/

namespace BcpFlux

def u32 (n : ℕ) : ℕ := n % 2 ^ 32

def uint32Max : ℕ := 2 ^ 32 - 1

def uint16Max : ℕ := 2 ^ 16 - 1

/-- The successor of a sequence number: it wraps, and zero is never a sequence. -/
def succSeq (seq : ℕ) : ℕ := if u32 (seq + 1) = 0 then 1 else u32 (seq + 1)

theorem succSeq_of_lt {seq : ℕ} (h : seq + 1 < 2 ^ 32) : succSeq seq = seq + 1 := by
  have hmod : u32 (seq + 1) = seq + 1 := Nat.mod_eq_of_lt h
  simp [succSeq, hmod]

/-- Age of a timestamp, floored at zero. -/
def elapsed (now past : ℕ) : ℕ := if past < now then now - past else 0

theorem elapsed_eq (now past : ℕ) : elapsed now past = now - past := by
  unfold elapsed
  split <;> omega

def lossPacketThreshold : ℕ := 3

/-- A socket address as `operator==` sees it. -/
structure Address where
  ip : List UInt8
  scope : ℕ
  port : ℕ
deriving DecidableEq, Repr

/-- The self-certifying peer id, a digest of the public key. -/
structure BcpId where
  id : List UInt8
deriving DecidableEq, Repr

end BcpFlux
