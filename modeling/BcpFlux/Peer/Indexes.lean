import BcpFlux.Crypto.Seal
import BcpFlux.Library.HashIndex
import BcpFlux.Pool.SlotPool
import BcpFlux.Transfer.Incoming

/-! # The three indexes of the peer table

`PeerTable` with its hash indexes bucket by bucket: one by address, one by id, one by tag.
Every loop that only an empty bucket ends runs on as much fuel as there are buckets, and an
operation whose loop needs more has no result.  Any two addresses may collide.  One thread
runs, so the optimistic probe and the one behind the writer lock are the same loop.
-/

namespace BcpFlux.Peer
open Library Library.RobinHood Library.HashIndex Pool Transfer Crypto Function

/-! ## Buckets

The source masks 32-bit words; over a power of two that is the ring of the library. -/

def idealBucket (mask hash : ℕ) : ℕ := u32 hash &&& mask

/-- `Dist`: how far a bucket is from the one the hash belongs in, in 32 bits. -/
def dist (hash pos mask : ℕ) : ℕ := u32 (pos + 2 ^ 32 - idealBucket mask hash) &&& mask

section Buckets
variable {k : ℕ} (hk : k ≤ 32)
include hk

theorem u32_mask (n : ℕ) : u32 n &&& (2 ^ k - 1) = n % 2 ^ k := by
  rw [Nat.and_two_pow_sub_one_eq_mod, u32, Nat.mod_mod_of_dvd _ (Nat.pow_dvd_pow 2 hk)]

/-- The masked words of the source are the ring of the library: the bucket of a hash, the step
to the next one, and the distance, whose subtraction may wrap. -/
theorem masked_words_are_ring (hash : ℕ) {pos : ℕ} (hpos : pos < 2 ^ k) :
    idealBucket (2 ^ k - 1) hash = hash % 2 ^ k ∧
      u32 (pos + 1) &&& (2 ^ k - 1) = next (2 ^ k) pos ∧
      dist hash pos (2 ^ k - 1) = away (2 ^ k) (hash % 2 ^ k) pos := by
  have hlt : hash % 2 ^ k < 2 ^ k := Nat.mod_lt _ (Nat.two_pow_pos k)
  obtain ⟨c, hc⟩ : 2 ^ k ∣ 2 ^ 32 := Nat.pow_dvd_pow 2 hk
  refine ⟨u32_mask hk hash, ?_, ?_⟩
  · rw [u32_mask hk, next]
    split_ifs with hend
    · exact Nat.mod_eq_of_lt hend
    · rw [show pos + 1 = 2 ^ k by omega, Nat.mod_self]
  · rw [dist, idealBucket, u32_mask hk, u32_mask hk, away]
    split_ifs with hle
    · rw [show pos + 2 ^ 32 - hash % 2 ^ k = pos - hash % 2 ^ k + 2 ^ k * c by omega,
        Nat.add_mul_mod_self_left, Nat.mod_eq_of_lt (by omega)]
    · -- one turn of the ring makes up for the borrow
      obtain ⟨d, rfl⟩ : ∃ d, c = d + 1 := Nat.exists_eq_succ_of_ne_zero (by rintro rfl; omega)
      rw [Nat.mul_succ] at hc
      rw [show pos + 2 ^ 32 - hash % 2 ^ k = pos + 2 ^ k - hash % 2 ^ k + 2 ^ k * d by omega,
        Nat.add_mul_mod_self_left, Nat.mod_eq_of_lt (by omega)]

end Buckets

/-- The bucket of the hash is past the position. -/
theorem masked_words_are_ring_wrapped : dist (2 ^ 40 + 7) 2 7 = 3 :=
  (masked_words_are_ring (by decide : 3 ≤ 32) (2 ^ 40 + 7) (by decide : 2 < 2 ^ 3)).2.2

/-! ## Hashes -/

/-- A bucket whose hash is zero is empty, so no key may hash to zero. -/
def nonZero (h : ℕ) : ℕ := if h = 0 then 1 else h

def hashAddr (addrHash : Address → ℕ) (addr : Address) : ℕ := nonZero (addrHash addr)

def hashId (id : BcpId) : ℕ := nonZero (ofLeBytes (id.id.take 8))

/-- The tag itself, as a word; the all-zero tag is reserved. -/
def hashTag (tag : PeerTag) : ℕ := ofLeBytes tag.bytes

/-! ## The table -/

def maxLoadPercent : ℕ := 85
def maxTagsPerPeer : ℕ := 4

/-- An address without a family is not set; it has no bytes to compare. -/
def isSet (addr : Address) : Bool := decide (addr.ip ≠ [])

/-- The fields of a `Peer` that its table reads and writes. -/
structure PeerRecord where
  addr : Address
  id : BcpId
  hasId : Bool
  emitting : Bool
  freeWhenRead : Bool

def PeerRecord.blank : PeerRecord where
  addr := ⟨[], 0, 0⟩
  id := ⟨List.replicate 32 0⟩
  hasId := false
  emitting := false
  freeWhenRead := false

/-- No key is stored with a tag: the hash is the tag. -/
structure TagEntry where
  hash : ℕ
  idx : ℕ

def TagEntry.home (cap : ℕ) (e : TagEntry) : ℕ := e.hash % cap

structure IndexedTable where
  peerCapacity : ℕ
  idxCapacity : ℕ
  tagIdxCapacity : ℕ
  tagCapacity : ℕ
  addrIdx : ℕ → Option (Entry Address ℕ)
  bcpIdx : ℕ → Option (Entry BcpId ℕ)
  tagIdx : ℕ → Option TagEntry
  tagCount : ℕ
  peerCount : ℕ
  peerPool : SlotPool
  peers : ℕ → PeerRecord

structure Reply where
  code : Error
  slot : Option ℕ
deriving DecidableEq

namespace IndexedTable

def need (entries : ℕ) : ℕ := (entries * 100 + maxLoadPercent - 1) / maxLoadPercent

def init (capacity : ℕ) : Option IndexedTable :=
  if capacity = 0 then none
  else if 2 ^ 30 < need capacity then none
  else if 2 ^ 30 < need (capacity * maxTagsPerPeer) then none
  else (SlotPool.init capacity).map fun pool =>
    { peerCapacity := capacity
      idxCapacity := nextPowerOfTwo (need capacity)
      tagIdxCapacity := nextPowerOfTwo (need (capacity * maxTagsPerPeer))
      tagCapacity := capacity * maxTagsPerPeer
      addrIdx := fun _ => none
      bcpIdx := fun _ => none
      tagIdx := fun _ => none
      tagCount := 0
      peerCount := 0
      peerPool := pool
      peers := fun _ => .blank }

section Operations
variable (addrHash : Address → ℕ)

def findAddr (t : IndexedTable) (addr : Address) : Option (Option ℕ) :=
  findPos t.idxCapacity t.addrIdx (hashAddr addrHash addr) addr

def findId (t : IndexedTable) (id : BcpId) : Option (Option ℕ) :=
  findPos t.idxCapacity t.bcpIdx (hashId id) id

/-- The id index is probed and written for a peer that comes with an id only. -/
def findGivenId (t : IndexedTable) : Option BcpId → Option (Option ℕ)
  | none => some none
  | some id => t.findId id

def insertGivenId (t : IndexedTable) (slot : ℕ) : Option BcpId → Option (ℕ → Option (Entry BcpId ℕ))
  | none => some t.bcpIdx
  | some id => insertEntry t.idxCapacity t.bcpIdx (hashId id) id slot

/-- A recycled slot holds the previous peer's bytes: every field is written. -/
def bornWith (addr : Address) (id : Option BcpId) : PeerRecord where
  addr := addr
  id := id.getD PeerRecord.blank.id
  hasId := id.isSome
  emitting := false
  freeWhenRead := false

/-- What a registration does with the answer of the pool. -/
def seat (t : IndexedTable) (addr : Address) (id : Option BcpId) :
    Acquired SlotPool → Option (Reply × IndexedTable)
  | .invalid => some (⟨.limitReached, none⟩, t)
  | .spins => none
  | .index slot pool => do
    let addrIdx ← insertEntry t.idxCapacity t.addrIdx (hashAddr addrHash addr) addr slot
    let bcpIdx ← t.insertGivenId slot id
    some (⟨.ok, some slot⟩,
      { t with
        addrIdx := addrIdx
        bcpIdx := bcpIdx
        peerCount := t.peerCount + 1
        peerPool := pool
        peers := update t.peers slot (bornWith addr id) })

def registerPeer (t : IndexedTable) (addr : Address) (id : Option BcpId) (hint : ℕ) :
    Option (Reply × IndexedTable) :=
  if isSet addr = false then some (⟨.invalidParam, none⟩, t)
  else if t.peerCapacity ≤ t.peerCount then some (⟨.limitReached, none⟩, t)
  else do
    let apos ← t.findAddr addrHash addr
    if apos.isSome then some (⟨.alreadyPending, none⟩, t)
    else do
      let ipos ← t.findGivenId id
      if ipos.isSome then some (⟨.alreadyPending, none⟩, t)
      else t.seat addrHash addr id (t.peerPool.acquire hint)

/-- The slot the bucket of an index points to; a bucket never written points to zero. -/
def slotAt {κ : Type} (cells : ℕ → Option (Entry κ ℕ)) (pos : ℕ) : ℕ :=
  ((cells pos).map Entry.value).getD 0

/-- A live peer maps back to its own slot, a freed or recycled one does not. -/
def mapsBack (t : IndexedTable) (slot : ℕ) : Option ℕ → Bool
  | none => false
  | some apos => slotAt t.addrIdx apos = slot

def bindId (t : IndexedTable) (slot : ℕ) (id : BcpId) : Option (Reply × IndexedTable) :=
  if t.peerPool.capacity ≤ slot then some (⟨.invalidParam, none⟩, t)
  else do
    let apos ← t.findAddr addrHash (t.peers slot).addr
    if t.mapsBack slot apos = false then some (⟨.notFound, none⟩, t)
    else if (t.peers slot).hasId then some (⟨.alreadyPending, none⟩, t)
    else do
      let ipos ← t.findId id
      if ipos.isSome then some (⟨.alreadyPending, none⟩, t)
      else do
        let bcpIdx ← insertEntry t.idxCapacity t.bcpIdx (hashId id) id slot
        some (⟨.ok, none⟩,
          { t with
            bcpIdx := bcpIdx
            peers := update t.peers slot { t.peers slot with id := id, hasId := true } })

/-! ### Removal -/

def removeAt {κ : Type} (cap : ℕ) (cells : ℕ → Option (Entry κ ℕ)) :
    Option ℕ → Option (ℕ → Option (Entry κ ℕ))
  | none => some cells
  | some pos => removeEntryAt cap cells pos

/-- Sweep the tag index for the entries of a slot. -/
def clearTagsLocked (t : IndexedTable) (slot : ℕ) : Option IndexedTable :=
  (clearUpTo t.tagIdxCapacity (TagEntry.home t.tagIdxCapacity) (fun e => e.idx = slot)
    t.tagIdxCapacity t.tagIdx).map fun r => { t with tagIdx := r.1, tagCount := t.tagCount - r.2 }

/-- A slot with an unread event is kept until the event has been read. -/
def drainAndFree (t : IndexedTable) (slot : ℕ) : Option IndexedTable :=
  if (t.peers slot).emitting then
    some { t with peers := update t.peers slot { t.peers slot with freeWhenRead := true } }
  else (t.peerPool.release slot).map fun pool => { t with peerPool := pool }

/-- Out of every index first, then the slot goes back. -/
def takeOut (t : IndexedTable) (apos bpos : Option ℕ) (slot : ℕ) :
    Option (Reply × IndexedTable) := do
  let addrIdx ← removeAt t.idxCapacity t.addrIdx apos
  let bcpIdx ← removeAt t.idxCapacity t.bcpIdx bpos
  let cleared ← { t with addrIdx := addrIdx, bcpIdx := bcpIdx }.clearTagsLocked slot
  let freed ← { cleared with peerCount := cleared.peerCount - 1 }.drainAndFree slot
  some (⟨.ok, none⟩, freed)

/-- The id lives on the peer. -/
def findOwnId (t : IndexedTable) (p : PeerRecord) : Option (Option ℕ) :=
  if p.hasId then t.findId p.id else some none

def removePeer (t : IndexedTable) (addr : Address) : Option (Reply × IndexedTable) := do
  let apos ← t.findAddr addrHash addr
  match apos with
  | none => some (⟨.notFound, none⟩, t)
  | some pos => do
    let bpos ← t.findOwnId (t.peers (slotAt t.addrIdx pos))
    t.takeOut (some pos) bpos (slotAt t.addrIdx pos)

def removePeerById (t : IndexedTable) (id : BcpId) : Option (Reply × IndexedTable) := do
  let bpos ← t.findId id
  match bpos with
  | none => some (⟨.notFound, none⟩, t)
  | some pos => do
    let apos ← t.findAddr addrHash (t.peers (slotAt t.bcpIdx pos)).addr
    t.takeOut apos (some pos) (slotAt t.bcpIdx pos)

/-! ### Moves and tags -/

def updateAddress (t : IndexedTable) (slot : ℕ) (newAddr : Address) :
    Option (Reply × IndexedTable) :=
  if t.peerPool.capacity ≤ slot ∨ isSet newAddr = false then some (⟨.invalidParam, none⟩, t)
  else do
    let apos ← t.findAddr addrHash (t.peers slot).addr
    if t.mapsBack slot apos = false then some (⟨.notFound, none⟩, t)
    else if newAddr = (t.peers slot).addr then some (⟨.ok, none⟩, t)
    else do
      let npos ← t.findAddr addrHash newAddr
      if npos.isSome then some (⟨.alreadyPending, none⟩, t)
      else do
        let without ← removeAt t.idxCapacity t.addrIdx apos
        let addrIdx ← insertEntry t.idxCapacity without (hashAddr addrHash newAddr) newAddr slot
        some (⟨.ok, none⟩,
          { t with
            addrIdx := addrIdx
            peers := update t.peers slot { t.peers slot with addr := newAddr } })

def findTagPos (t : IndexedTable) (hash slot : ℕ) : Option (Option ℕ) :=
  probe t.tagIdxCapacity (TagEntry.home t.tagIdxCapacity) (fun e => e.hash = hash ∧ e.idx = slot)
    t.tagIdx t.tagIdxCapacity 0 (hash % t.tagIdxCapacity)

def insertTagEntry (t : IndexedTable) (hash slot : ℕ) : Option (ℕ → Option TagEntry) :=
  insertFrom t.tagIdxCapacity (TagEntry.home t.tagIdxCapacity) t.tagIdxCapacity 0
    (hash % t.tagIdxCapacity) ⟨hash, slot⟩ t.tagIdx

def removeTagEntryAt (t : IndexedTable) (pos : ℕ) : Option (ℕ → Option TagEntry) :=
  removeFrom t.tagIdxCapacity (TagEntry.home t.tagIdxCapacity) t.tagIdxCapacity pos t.tagIdx

def bindTag (t : IndexedTable) (slot : ℕ) (tag : PeerTag) : Option (Reply × IndexedTable) :=
  if t.peerPool.capacity ≤ slot then some (⟨.invalidParam, none⟩, t)
  else if hashTag tag = 0 then some (⟨.invalidParam, none⟩, t)
  else if t.tagCapacity ≤ t.tagCount then some (⟨.limitReached, none⟩, t)
  else do
    let apos ← t.findAddr addrHash (t.peers slot).addr
    if t.mapsBack slot apos = false then some (⟨.notFound, none⟩, t)
    else do
      let tagIdx ← t.insertTagEntry (hashTag tag) slot
      some (⟨.ok, none⟩, { t with tagIdx := tagIdx, tagCount := t.tagCount + 1 })

def unbindTag (t : IndexedTable) (slot : ℕ) (tag : PeerTag) : Option (Reply × IndexedTable) :=
  if hashTag tag = 0 then some (⟨.invalidParam, none⟩, t)
  else do
    let tpos ← t.findTagPos (hashTag tag) slot
    match tpos with
    | none => some (⟨.notFound, none⟩, t)
    | some pos => do
      let tagIdx ← t.removeTagEntryAt pos
      some (⟨.ok, none⟩, { t with tagIdx := tagIdx, tagCount := t.tagCount - 1 })

def unbindTags (t : IndexedTable) (slot : ℕ) : Option (Reply × IndexedTable) := do
  let cleared ← t.clearTagsLocked slot
  some (⟨.ok, none⟩, cleared)

/-! ### Events about a peer -/

/-- An event about the peer was recorded in the row of its slot. -/
def markEmitting (t : IndexedTable) (slot : ℕ) : IndexedTable :=
  { t with peers := update t.peers slot { t.peers slot with emitting := true } }

def clearEmitting (t : IndexedTable) (slot : ℕ) : Option IndexedTable :=
  if t.peerPool.capacity ≤ slot then some t
  else
    let p := { t.peers slot with emitting := false, freeWhenRead := false }
    let read := { t with peers := update t.peers slot p }
    if (t.peers slot).freeWhenRead then
      (t.peerPool.release slot).map fun pool => { read with peerPool := pool }
    else some read

/-! ### Lookups -/

def getPeer (t : IndexedTable) (addr : Address) : Option ℕ :=
  lookup t.idxCapacity t.addrIdx (hashAddr addrHash addr) fun slot => (t.peers slot).addr = addr

def getPeerById (t : IndexedTable) (id : BcpId) : Option ℕ :=
  lookup t.idxCapacity t.bcpIdx (hashId id) fun slot =>
    (t.peers slot).hasId && decide ((t.peers slot).id = id)

/-- The number of peers bound to the tag, and as many of them as there is room for. -/
def getPeersByTag (t : IndexedTable) (tag : PeerTag) (max : ℕ) : ℕ × List ℕ :=
  if max = 0 then (0, [])
  else if hashTag tag = 0 then (0, [])
  else
    let found := (collect t.tagIdxCapacity (TagEntry.home t.tagIdxCapacity)
      (fun e => e.hash = hashTag tag) t.tagIdx t.tagIdxCapacity 0
      (hashTag tag % t.tagIdxCapacity)).map TagEntry.idx
    (found.length, found.take max)

end Operations
end IndexedTable

/-! ## Runs -/

/-- A call into the table.  `hint` is where the pool starts to look for a free slot. -/
inductive TableOp where
  | registerPeer (addr : Address) (id : Option BcpId) (hint : ℕ)
  | bindId (slot : ℕ) (id : BcpId)
  | updateAddress (slot : ℕ) (newAddr : Address)
  | bindTag (slot : ℕ) (tag : PeerTag)
  | unbindTag (slot : ℕ) (tag : PeerTag)
  | unbindTags (slot : ℕ)
  | removePeer (addr : Address)
  | removePeerById (id : BcpId)
  | markEmitting (slot : ℕ)
  | clearEmitting (slot : ℕ)

namespace IndexedTable
variable (addrHash : Address → ℕ)

def apply (t : IndexedTable) : TableOp → Option (Reply × IndexedTable)
  | .registerPeer addr id hint => t.registerPeer addrHash addr id hint
  | .bindId slot id => t.bindId addrHash slot id
  | .updateAddress slot newAddr => t.updateAddress addrHash slot newAddr
  | .bindTag slot tag => t.bindTag addrHash slot tag
  | .unbindTag slot tag => t.unbindTag slot tag
  | .unbindTags slot => t.unbindTags slot
  | .removePeer addr => t.removePeer addrHash addr
  | .removePeerById id => t.removePeerById addrHash id
  | .markEmitting slot => some (⟨.ok, none⟩, t.markEmitting slot)
  | .clearEmitting slot => (t.clearEmitting slot).map fun t' => (⟨.ok, none⟩, t')

/-- One operation after the other; nothing comes out if one of them does not return. -/
def runOps (t : IndexedTable) : List TableOp → Option (List Reply × IndexedTable)
  | [] => some ([], t)
  | op :: ops => do
    let (reply, t') ← t.apply addrHash op
    let (replies, t'') ← t'.runOps ops
    some (reply :: replies, t'')

end IndexedTable

end BcpFlux.Peer
