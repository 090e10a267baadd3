import BcpFlux.Wire.Packet

/-! # Several messages in one packet

The content layout of `wire/batch.cpp`.  A lone message is stored bare; from the
second one on, the content is a chain of two-byte lengths each followed by its
message.  `content` holds the used bytes, so `used` is its length.
-/

namespace BcpFlux.Wire
open Library

structure BatchCursor where
  content : List UInt8
  count : ℕ
  firstLen : ℕ
  capacity : ℕ

def putLen (len : ℕ) : List UInt8 := leBytes wireBatchLenSize len

def takeLen (bytes : List UInt8) : ℕ := ofLeBytes (bytes.take wireBatchLenSize)

/-- What a message of this length adds; zero for an empty one, which no length frames. -/
def batchCostOf (cursor : BatchCursor) (len : ℕ) : ℕ :=
  if len = 0 then 0
  else if cursor.count = 0 then len
  -- the second message also pays for the length the first one grows
  else if cursor.count = 1 then wireBatchLenSize + wireBatchLenSize + len
  else wireBatchLenSize + len

def batchFits (cursor : BatchCursor) (len : ℕ) : Bool :=
  let cost := batchCostOf cursor len
  if cost = 0 then false else decide (cursor.content.length + cost ≤ cursor.capacity)

def batchAppend (cursor : BatchCursor) (message : List UInt8) : Option BatchCursor :=
  if batchFits cursor message.length then
    if cursor.count = 0 then
      some { cursor with content := message, firstLen := message.length, count := 1 }
    else
      -- the bare first message moves up to make room for its length
      let listed := if cursor.count = 1
        then putLen cursor.firstLen ++ cursor.content else cursor.content
      some { cursor with
        content := listed ++ putLen message.length ++ message
        count := cursor.count + 1 }
  else none

/-- The loop of `BatchValidate` on the bytes from its offset on, at most `steps` turns. -/
def batchValidateFrom : ℕ → List UInt8 → Bool
  | 0, rest => rest.isEmpty
  | steps + 1, rest =>
    if wireBatchLenSize ≤ rest.length then
      let entry := takeLen rest
      if entry = 0 then false
      else if rest.length < wireBatchLenSize + entry then false
      else batchValidateFrom steps (rest.drop (wireBatchLenSize + entry))
    else rest.isEmpty

/-- Each turn consumes at least a length, so one turn per byte is enough. -/
def batchValidate (content : List UInt8) : Bool := batchValidateFrom content.length content

/-- `BatchNext`: the message at an offset, and the offset behind it. -/
def batchNext (content : List UInt8) (offset : ℕ) : Option (List UInt8 × ℕ) :=
  if content.length ≤ offset then none
  else if content.length < offset + wireBatchLenSize then none
  else
    let entry := takeLen (content.drop offset)
    if content.length < offset + wireBatchLenSize + entry then none
    else some ((content.drop (offset + wireBatchLenSize)).take entry,
      offset + wireBatchLenSize + entry)

/-- What a reader calling `BatchNext` until it declines gets, at most `steps` messages. -/
def batchMessages (content : List UInt8) : ℕ → ℕ → List (List UInt8)
  | 0, _ => []
  | steps + 1, offset =>
    match batchNext content offset with
    | none => []
    | some (message, offset) => message :: batchMessages content steps offset

/-! ## What fits -/

theorem batchFits_of_append {cursor cursor' : BatchCursor} {message : List UInt8}
    (h : batchAppend cursor message = some cursor') : batchFits cursor message.length = true := by
  rw [batchAppend] at h
  split at h
  · assumption
  · cases h

theorem batchAppend_fits {cursor cursor' : BatchCursor} {message : List UInt8}
    (h : batchAppend cursor message = some cursor') :
    message ≠ [] ∧ cursor'.content.length ≤ cursor'.capacity ∧
      cursor'.capacity = cursor.capacity := by
  rw [batchAppend] at h
  split at h
  case isFalse => cases h
  case isTrue hfits =>
    simp only [batchFits, batchCostOf] at hfits
    have hne : message ≠ [] := by
      rintro rfl
      simp at hfits
    have hlen : message.length ≠ 0 := fun hzero => hne (List.length_eq_zero_iff.mp hzero)
    split at h
    case isTrue hcount =>
      cases h
      simp [hlen, hcount] at hfits
      exact ⟨hne, by dsimp only; omega, rfl⟩
    case isFalse hcount =>
      cases h
      refine ⟨hne, ?_, rfl⟩
      by_cases hone : cursor.count = 1
      · simp [hlen, hone, wireBatchLenSize] at hfits
        simp [hone, putLen, wireBatchLenSize]
        omega
      · simp [hlen, hcount, hone, wireBatchLenSize] at hfits
        simp [hone, putLen, wireBatchLenSize]
        omega

end BcpFlux.Wire
