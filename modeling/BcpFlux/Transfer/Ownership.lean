import BcpFlux.Library.Lending
import BcpFlux.Transfer.Placement
import BcpFlux.Transfer.Table
import Mathlib.Data.Fintype.BigOperators

/-! # Who owns a finished entry

Every transfer is to queue one finished entry, and the slot in the entry is to be the
transfer's own until the entry has been read.
-/

namespace BcpFlux.Transfer
open Library Pool

/-! ## What one call does to a record -/

namespace InTransfer
variable (t : InTransfer)

@[simp] theorem place_peerSlot (dest : Buffer) (seq : ℕ) (payload : List UInt8) :
    (t.place dest seq payload).1.peerSlot = t.peerSlot := by
  unfold place
  dsimp only
  split <;> rfl

@[simp] theorem onData_peerSlot (seq : ℕ) (payload : List UInt8) :
    (t.onData seq payload).2.1.peerSlot = t.peerSlot := by
  rcases onData_cases t seq payload with ⟨heq, -⟩ | ⟨dest, _, _, _, _, _, _, _, heq⟩
  · rw [heq]
    rfl
  · rw [heq, place_peerSlot]
    rfl

theorem onData_finishes (seq : ℕ) (payload : List UInt8) :
    ((t.onData seq payload).2.2 = false ∧ (t.onData seq payload).2.1.complete = t.complete) ∨
      ((t.onData seq payload).2.2 = true ∧ (t.onData seq payload).2.1.complete = true ∧
        t.complete = false) := by
  rcases onData_cases t seq payload with ⟨heq, hflag⟩ | ⟨dest, _, hopen, _, _, _, _, _, heq⟩
  · refine .inl ⟨hflag, ?_⟩
    rw [heq]
    rfl
  · rw [heq]
    obtain ⟨hcomplete, hflag⟩ := t.arrived.place_complete dest seq payload
    rw [arrived_complete, hopen] at hcomplete
    by_cases hend : t.arrived.packetCount ≤ (t.arrived.placeWalk seq).2
    · exact .inr ⟨hflag.mpr hend, hcomplete.mpr (.inr hend), hopen⟩
    · refine .inl ⟨Bool.eq_false_iff.mpr (mt hflag.mp hend), ?_⟩
      rw [hopen, Bool.eq_false_iff]
      intro hdone
      exact (hcomplete.mp hdone).elim Bool.noConfusion hend

theorem allow_frame : t.allow.2.peerSlot = t.peerSlot ∧ t.allow.2.complete = t.complete := by
  unfold allow
  split <;> exact ⟨rfl, rfl⟩

theorem answerDebt_frame :
    t.answerDebt.1.peerSlot = t.peerSlot ∧ t.answerDebt.1.complete = t.complete := by
  rw [answerDebt_eq]
  exact ⟨rfl, rfl⟩

end InTransfer

namespace OutTransfer
variable (out : OutTransfer)

theorem over_eq_true : out.over = true ↔ out.refused = true ∨ out.packetCount ≤ out.contiguousAcked := by
  rw [OutTransfer.over, Bool.or_eq_true, decide_eq_true_eq]

/-- The part of a record that says whose it is and whether it is over. -/
def standing (out : OutTransfer) : ℕ × Bool × ℕ × ℕ :=
  (out.peerSlot, out.refused, out.packetCount, out.contiguousAcked)

variable {out} in
theorem standing_frame {out' : OutTransfer} (h : out'.standing = out.standing) :
    out'.peerSlot = out.peerSlot ∧ out'.over = out.over := by
  simp only [standing, Prod.mk.injEq] at h
  obtain ⟨hpeer, hrefused, hcount, hacked⟩ := h
  exact ⟨hpeer, by rw [OutTransfer.over, OutTransfer.over, hrefused, hcount, hacked]⟩

section
variable (recvNext : ℕ) (bitmap : List Bool) (now : ℕ)

theorem onAck_peerSlot :
    (out.onAck recvNext bitmap now).1.peerSlot = out.peerSlot :=
  congrArg Prod.fst (onAck_frame now out recvNext bitmap)

theorem onAck_packetCount :
    (out.onAck recvNext bitmap now).1.packetCount = out.packetCount :=
  congrArg (fun f => f.2.2.2.2.2.1) (onAck_frame now out recvNext bitmap)

theorem onAck_over :
    ((out.onAck recvNext bitmap now).2.2 = false ∧
        (out.onAck recvNext bitmap now).1.over = out.over) ∨
      ((out.onAck recvNext bitmap now).2.2 = true ∧
        (out.onAck recvNext bitmap now).1.over = true) := by
  have hflag := onAck_finished now out recvNext bitmap
  have hover := over_eq_true (out.onAck recvNext bitmap now).1
  rw [onAck_refused, onAck_contiguousAcked, onAck_packetCount] at hover
  by_cases hend : out.packetCount ≤ max out.contiguousAcked (min recvNext out.packetCount)
  · exact .inr ⟨hflag.mpr hend, hover.mpr (.inr hend)⟩
  · refine .inl ⟨Bool.eq_false_iff.mpr (mt hflag.mp hend), ?_⟩
    rw [Bool.eq_iff_iff, hover, over_eq_true]
    have hbefore : ¬ out.packetCount ≤ out.contiguousAcked := by omega
    simp [hend, hbefore]

end

theorem onRefused_peerSlot : out.onRefused.1.peerSlot = out.peerSlot := by
  rw [onRefused_eq]

theorem onRefused_over : out.onRefused.1.over = true := by
  rw [over_eq_true, onRefused_eq]
  exact .inl rfl

theorem onRefused_finishes : out.onRefused.2.2 = !out.refused := by
  unfold onRefused
  split
  · next h => rw [h, Bool.not_true]
  · next h => rw [Bool.eq_false_of_not_eq_true h, Bool.not_false]

end OutTransfer

theorem Turn.sends_standing {now : ℕ} {t t' : Turn} (h : Turn.Sends now t t') :
    t'.out.standing = t.out.standing := by
  cases h with
  | nothing hout _ _ => rw [hout]
  | announced hout _ _ =>
    rw [hout]
    rfl
  | unanswered hout _ _ =>
    rw [hout]
    rfl
  | resent seq _ _ _ hout _ _ =>
    rw [hout]
    rfl
  | sent _ _ hout _ _ =>
    rw [hout]
    rfl

theorem Turn.run_standing (t : Turn) (times : Intervals) (now : ℕ) :
    (t.run times now).out.standing = t.out.standing :=
  Turn.run_induction (fun t' => t'.out.standing = t.out.standing) now
    (fun _ _ hsends h => (Turn.sends_standing hsends).trans h) t times rfl

/-! ## The books of the table -/

/-- The entry without its outcome. -/
def Finished.notice (e : Finished) : Notice Bool := ⟨e.incoming, e.slot, e.owner⟩

namespace Table

def lending (t : Table) : Lending Bool where
  held
    | true, i => t.inbound.Leased i
    | false, i => t.outbound.Leased i
  lease := t.serial
  done
    | true, i => (t.inbound.records i).complete = true
    | false, i => (t.outbound.records i).over = true
  next
    | true => t.inbound.next
    | false => t.outbound.next

/-- Both directions are sound, the ring has a place for every slot, and each entry is the
one entry of the transfer that holds its slot. -/
structure Inv (t : Table) : Prop where
  outbound : t.outbound.Sound OutTransfer.peerSlot
  inbound : t.inbound.Sound InTransfer.peerSlot
  ring_eq : t.ring = t.outbound.count + t.inbound.count
  kept : t.lending.Kept t.pushes (t.finished.map Finished.notice)
  read : ∀ r ∈ t.reads, r.2 = true

variable {t : Table}

theorem Inv.issued (h : t.Inv) : t.lending.Issued where
  lease_lt d i hi := by
    cases d
    · exact h.outbound.serial_lt i hi
    · exact h.inbound.serial_lt i hi
  lease_inj d i j hi hj heq := by
    cases d
    · exact h.outbound.serial_inj i j hi hj heq
    · exact h.inbound.serial_inj i j hi hj heq

theorem Inv.slot_lt (h : t.Inv) (d : Bool) (i : ℕ) (hi : t.lending.held d i) :
    i < bif d then t.inbound.count else t.outbound.count := by
  cases d
  · exact h.outbound.lt_count hi
  · exact h.inbound.lt_count hi

theorem Inv.room (h : t.Inv) {d : Bool} {i : ℕ} (hheld : t.lending.held d i)
    (hopen : ¬ t.lending.done d i) : t.finished.length < t.ring := by
  have hlt := h.kept.length_lt h.slot_lt hheld hopen
  rw [List.length_map, Fintype.sum_bool] at hlt
  rw [h.ring_eq, Nat.add_comm]
  exact hlt

theorem Inv.moves (h : t.Inv) {outbound : Side OutTransfer} {inbound : Side InTransfer}
    {queue : List Finished} {reads : List (Finished × Bool)}
    (hout : outbound.Sound OutTransfer.peerSlot) (hin : inbound.Sound InTransfer.peerSlot)
    (hmout : t.outbound.Moves OutTransfer.over outbound)
    (hmin : t.inbound.Moves InTransfer.complete inbound) (hsub : queue.Sublist t.finished)
    (hqout : ∀ e ∈ queue, e.incoming = false →
      outbound.Leased e.slot ∧ outbound.serial e.slot = t.outbound.serial e.slot)
    (hqin : ∀ e ∈ queue, e.incoming = true →
      inbound.Leased e.slot ∧ inbound.serial e.slot = t.inbound.serial e.slot)
    (hreads : ∀ r ∈ reads, r.2 = true) :
    (⟨t.maxTransferBytes, outbound, inbound, queue, t.pushes, reads⟩ : Table).Inv where
  outbound := hout
  inbound := hin
  ring_eq := by
    have hring := h.ring_eq
    unfold ring at hring ⊢
    rw [hmout.count, hmin.count]
    exact hring
  kept := by
    have hqueue : ∀ e ∈ queue.map Finished.notice,
        (Table.lending ⟨t.maxTransferBytes, outbound, inbound, queue, t.pushes, reads⟩).held
            e.lane e.slot ∧
          (Table.lending ⟨t.maxTransferBytes, outbound, inbound, queue, t.pushes, reads⟩).lease
            e.lane e.slot = t.lending.lease e.lane e.slot := by
      intro n hn
      obtain ⟨e, he, rfl⟩ := List.mem_map.mp hn
      rcases e with ⟨slot, _ | _, outcome, owner⟩
      · exact hqout _ he rfl
      · exact hqin _ he rfl
    apply h.kept.onward h.issued
    · constructor
      · intro d
        cases d
        · exact hmout.next_le
        · exact hmin.next_le
      · intro d i hi
        cases d
        · simpa [lending, serial] using hmout.held i hi
        · simpa [lending, serial] using hmin.held i hi
    · exact hsub.map _
    · exact fun e he => (hqueue e he).1
    · exact fun e he => (hqueue e he).2
  read := hreads

variable {e : Finished}

/-- The queued entries of one direction keep their slots through any step that keeps all
leases of the direction. -/
theorem Inv.queue_out (h : t.Inv) (he : e ∈ t.finished) (hd : e.incoming = false) :
    t.outbound.Leased e.slot ∧ t.outbound.serial e.slot = e.owner := by
  have hq := h.kept.queued e.notice (List.mem_map_of_mem he)
  rcases e with ⟨slot, _ | _, outcome, owner⟩
  · exact ⟨hq.1, hq.2.1⟩
  · cases hd

theorem Inv.queue_in (h : t.Inv) (he : e ∈ t.finished) (hd : e.incoming = true) :
    t.inbound.Leased e.slot ∧ t.inbound.serial e.slot = e.owner := by
  have hq := h.kept.queued e.notice (List.mem_map_of_mem he)
  rcases e with ⟨slot, _ | _, outcome, owner⟩
  · cases hd
  · exact ⟨hq.1, hq.2.1⟩

theorem Inv.moves_out (h : t.Inv) {outbound : Side OutTransfer}
    (hout : outbound.Sound OutTransfer.peerSlot) (hmout : t.outbound.Moves OutTransfer.over outbound)
    (hqout : ∀ e ∈ t.finished, e.incoming = false →
      outbound.Leased e.slot ∧ outbound.serial e.slot = t.outbound.serial e.slot) :
    { t with outbound := outbound }.Inv :=
  h.moves hout h.inbound hmout (.refl _ _) (List.Sublist.refl _) hqout
    (fun _ he hd => ⟨(h.queue_in he hd).1, rfl⟩) h.read

theorem Inv.moves_in (h : t.Inv) {inbound : Side InTransfer}
    (hin : inbound.Sound InTransfer.peerSlot)
    (hmin : t.inbound.Moves InTransfer.complete inbound)
    (hqin : ∀ e ∈ t.finished, e.incoming = true →
      inbound.Leased e.slot ∧ inbound.serial e.slot = t.inbound.serial e.slot) :
    { t with inbound := inbound }.Inv :=
  h.moves h.outbound hin (.refl _ _) hmin (List.Sublist.refl _)
    (fun _ he hd => ⟨(h.queue_out he hd).1, rfl⟩) hqin h.read

/-! ### One call after the other -/

theorem Inv.beginSend (h : t.Inv) (peerSlot : ℕ) (peer : Address) (transferId : ℕ)
    (buffer : Option (ℕ → UInt8)) (length hint : ℕ) :
    (t.beginSend peerSlot peer transferId buffer length hint).2.Inv := by
  rcases t.beginSend_cases peerSlot peer transferId buffer length hint with
    ⟨hsame, -⟩ | ⟨source, -, hcount, -, -, hpeer, -, hpackets, heq⟩
  · rw [hsame]
    exact h
  have hopen : (OutTransfer.start peerSlot peer transferId source length).over = false := by
    rw [Bool.eq_false_iff, Ne, OutTransfer.over_eq_true]
    rintro (hrefused | hdone)
    · cases hrefused
    · exact hpackets (Nat.le_zero.mp hdone)
  obtain ⟨hsound, hmoves, hkeep⟩ :=
    h.outbound.claim hcount peerSlot transferId _ hint rfl hpeer hopen
  rw [heq]
  apply h.moves_out hsound hmoves
  intro e he hd
  exact hkeep _ (h.queue_out he hd).1

theorem Inv.onAnnounce (h : t.Inv) (peerSlot : ℕ) (peer : Address)
    (transferId length stride hint : ℕ) :
    (t.onAnnounce peerSlot peer transferId length stride hint).2.2.Inv := by
  rcases t.onAnnounce_cases peerSlot peer transferId length stride hint with
    hsame | ⟨hcount, hpeer, -, -, -, -, heq⟩
  · rw [hsame]
    exact h
  have hopen : (InTransfer.announce peerSlot peer transferId length).complete = false := rfl
  obtain ⟨hsound, hmoves, hkeep⟩ :=
    h.inbound.claim hcount peerSlot transferId _ hint rfl hpeer hopen
  rw [heq]
  apply h.moves_in hsound hmoves
  intro e he hd
  exact hkeep _ (h.queue_in he hd).1

variable {slot : ℕ}

theorem Inv.store_out (h : t.Inv) {r : OutTransfer}
    (hpeer : r.peerSlot = (t.outbound.records slot).peerSlot)
    (hover : r.over = (t.outbound.records slot).over) :
    { t with outbound := t.outbound.store slot r }.Inv := by
  apply h.moves_out (h.outbound.store hpeer) (Side.moves_store hover)
  intro e he hd
  exact ⟨(h.queue_out he hd).1, rfl⟩

theorem Inv.store_in (h : t.Inv) {r : InTransfer}
    (hpeer : r.peerSlot = (t.inbound.records slot).peerSlot)
    (hdone : r.complete = (t.inbound.records slot).complete) :
    { t with inbound := t.inbound.store slot r }.Inv := by
  apply h.moves_in (h.inbound.store hpeer) (Side.moves_store hdone)
  intro e he hd
  exact ⟨(h.queue_in he hd).1, rfl⟩

theorem Inv.push_out (h : t.Inv) {r : OutTransfer} (hleased : t.outbound.Leased slot)
    (hpeer : r.peerSlot = (t.outbound.records slot).peerSlot)
    (hopen : (t.outbound.records slot).over = false) (hover : r.over = true) (outcome : Error) :
    ({ t with outbound := t.outbound.store slot r }.push slot false outcome).Inv := by
  have hnot : ¬ t.lending.done false slot := Bool.eq_false_iff.mp hopen
  have hroom : t.finished.length < ring { t with outbound := t.outbound.store slot r } :=
    h.room (d := false) hleased hnot
  rw [push, if_pos hroom]
  refine ⟨h.outbound.store hpeer, h.inbound, h.ring_eq, ?_, h.read⟩
  rw [List.map_append]
  apply h.kept.push h.issued (d := false) hleased hnot
  · simpa [lending, Side.store] using hover
  · funext d
    cases d <;> rfl
  · intro d j
    cases d <;> rfl
  · rfl
  · intro d j hne
    cases d
    · have hj : j ≠ slot := fun hj => hne (by rw [hj])
      simp [lending, Side.store, hj]
    · rfl

theorem Inv.push_in (h : t.Inv) {r : InTransfer} (hleased : t.inbound.Leased slot)
    (hpeer : r.peerSlot = (t.inbound.records slot).peerSlot)
    (hopen : (t.inbound.records slot).complete = false) (hdone : r.complete = true)
    (outcome : Error) :
    ({ t with inbound := t.inbound.store slot r }.push slot true outcome).Inv := by
  have hnot : ¬ t.lending.done true slot := Bool.eq_false_iff.mp hopen
  have hroom : t.finished.length < ring { t with inbound := t.inbound.store slot r } :=
    h.room (d := true) hleased hnot
  rw [push, if_pos hroom]
  refine ⟨h.outbound, h.inbound.store hpeer, h.ring_eq, ?_, h.read⟩
  rw [List.map_append]
  apply h.kept.push h.issued (d := true) hleased hnot
  · simpa [lending, Side.store] using hdone
  · funext d
    cases d <;> rfl
  · intro d j
    cases d <;> rfl
  · rfl
  · intro d j hne
    cases d
    · rfl
    · have hj : j ≠ slot := fun hj => hne (by rw [hj])
      simp [lending, Side.store, hj]

theorem Inv.closed_in (h : t.Inv) (hleased : t.inbound.Leased slot)
    (hfree : ∀ e ∈ t.finished, e.incoming = true → e.slot ≠ slot) :
    { t with inbound :=
      t.inbound.close (t.inbound.records slot).peerSlot slot .blank }.Inv := by
  have hnarrow := h.inbound.narrows_close hleased (t.inbound.records slot).peerSlot .blank
  apply h.moves_in (h.inbound.close hleased .blank) (hnarrow.moves _)
  intro e he hd
  have hkept := (h.inbound.leased_close hleased (t.inbound.records slot).peerSlot .blank).mpr
    ⟨(h.queue_in he hd).1, hfree e he hd⟩
  exact ⟨hkept, (hnarrow.kept _ hkept).2.2⟩

theorem Inv.holds (h : t.Inv) (he : e ∈ t.finished) : t.holds e = true := by
  unfold Table.holds
  split
  · next hd => exact decide_eq_true (h.queue_in he hd)
  · next hd => exact decide_eq_true (h.queue_out he (Bool.eq_false_of_not_eq_true hd))

theorem Inv.readEntry (h : t.Inv) {rest : List Finished}
    (hqueue : t.finished = e :: rest) : (t.readEntry e rest).2.Inv := by
  have hmem : e ∈ t.finished := by simp [hqueue]
  have hsub : rest.Sublist t.finished := by
    rw [hqueue]
    exact List.sublist_cons_self e rest
  have hreads : ∀ r ∈ t.reads ++ [(e, t.holds e)], r.2 = true := by
    intro r hr
    rcases List.mem_append.mp hr with hold | hnew
    · exact h.read r hold
    · rw [List.mem_singleton.mp hnew]
      exact h.holds hmem
  unfold Table.readEntry
  split
  · exact h.moves h.outbound h.inbound (.refl _ _) (.refl _ _) hsub
      (fun _ he hd => ⟨(h.queue_out (hsub.subset he) hd).1, rfl⟩)
      (fun _ he hd => ⟨(h.queue_in (hsub.subset he) hd).1, rfl⟩) hreads
  · next hd =>
    have hout := Bool.eq_false_of_not_eq_true hd
    have hleased := (h.queue_out hmem hout).1
    have hnarrow := h.outbound.narrows_close hleased (t.outbound.records e.slot).peerSlot .blank
    apply h.moves (h.outbound.close hleased .blank) h.inbound (hnarrow.moves _) (.refl _ _) hsub
    · -- the entry just read was the only one of its slot
      intro e' he' hd'
      have hne : e'.slot ≠ e.slot := by
        intro heq
        have hdistinct := h.kept.distinct
        rw [hqueue, List.map_cons, List.map_cons, List.nodup_cons] at hdistinct
        apply hdistinct.1
        rw [List.map_map]
        refine List.mem_map.mpr ⟨e', he', ?_⟩
        simp only [Function.comp, Finished.notice, heq, hout, hd']
      have hkept := (h.outbound.leased_close hleased (t.outbound.records e.slot).peerSlot
        .blank).mpr ⟨(h.queue_out (hsub.subset he') hd').1, hne⟩
      exact ⟨hkept, (hnarrow.kept _ hkept).2.2⟩
    · exact fun _ he hd => ⟨(h.queue_in (hsub.subset he) hd).1, rfl⟩
    · exact hreads

theorem Inv.drainFinished (max : ℕ) (h : t.Inv) : (drainFinished max t).2.Inv := by
  induction max generalizing t with
  | zero => exact h
  | succ max ih =>
    rw [Table.drainFinished]
    split
    · exact h
    · next e rest hqueue => exact ih (h.readEntry hqueue)

variable {peerSlot : ℕ}

theorem Inv.sweepPeer (h : t.Inv)
    (hout : ∀ e ∈ t.finished, e.incoming = false →
      (t.outbound.records e.slot).peerSlot ≠ peerSlot)
    (hin : ∀ e ∈ t.finished, e.incoming = true →
      (t.inbound.records e.slot).peerSlot ≠ peerSlot) : (t.sweepPeer peerSlot).Inv := by
  obtain ⟨hsout, hnout, hkout⟩ := h.outbound.sweep peerSlot .blank
  obtain ⟨hsin, hnin, hkin⟩ := h.inbound.sweep peerSlot .blank
  apply h.moves hsout hsin (hnout.moves _) (hnin.moves _) (List.Sublist.refl _)
  · intro e he hd
    have hkept := hkout e.slot (h.queue_out he hd).1 (hout e he hd)
    exact ⟨hkept, (hnout.kept _ hkept).2.2⟩
  · intro e he hd
    have hkept := hkin e.slot (h.queue_in he hd).1 (hin e he hd)
    exact ⟨hkept, (hnin.kept _ hkept).2.2⟩
  · exact h.read

/-! ## Whole runs -/

/-- The calls the queue is built for.  A transfer that is over is not acknowledged to its
end again and not refused on top, and no slot is taken back while the queue still names it. -/
def Orderly (t : Table) : Call → Prop
  | .onAck peerSlot transferId recvNext _ _ =>
    ∀ slot ∈ t.outbound.find peerSlot transferId, (t.outbound.records slot).over = true →
      max (t.outbound.records slot).contiguousAcked recvNext <
        (t.outbound.records slot).packetCount
  | .onRefused peerSlot transferId =>
    ∀ slot ∈ t.outbound.find peerSlot transferId, (t.outbound.records slot).over = true →
      (t.outbound.records slot).refused = true
  | .reject peerSlot transferId | .complete peerSlot transferId =>
    ∀ slot ∈ t.inbound.find peerSlot transferId, ∀ e ∈ t.finished, e.incoming = true →
      e.slot ≠ slot
  | .sweepPeer peerSlot =>
    (∀ e ∈ t.finished, e.incoming = false → (t.outbound.records e.slot).peerSlot ≠ peerSlot) ∧
      ∀ e ∈ t.finished, e.incoming = true → (t.inbound.records e.slot).peerSlot ≠ peerSlot
  | _ => True

instance (t : Table) : (c : Call) → Decidable (t.Orderly c)
  | .onAck .. | .onRefused .. | .reject .. | .complete .. | .sweepPeer .. => by
    unfold Orderly; infer_instance
  | .beginSend .. | .onAnnounce .. | .onData .. | .allow .. | .answer .. | .pass ..
  | .drainFinished .. => isTrue trivial

theorem Inv.onData (h : t.Inv) (peerSlot transferId seq : ℕ) (payload : List UInt8) :
    (t.onData peerSlot transferId seq payload).2.Inv := by
  rw [Table.onData]
  split
  · exact h
  · next slot hfind =>
    have hleased := (h.inbound.leased_of_find hfind).1
    have hpeer := (t.inbound.records slot).onData_peerSlot seq payload
    dsimp only
    unfold settleData
    rcases (t.inbound.records slot).onData_finishes seq payload with
      ⟨hflag, hsame⟩ | ⟨hflag, hdone, hopen⟩
    · rw [hflag]
      exact h.store_in hpeer hsame
    · rw [hflag]
      exact h.push_in hleased hpeer hopen hdone .ok

theorem Inv.allow (h : t.Inv) (peerSlot transferId : ℕ) (buffer : Bool) :
    (t.allow peerSlot transferId buffer).2.Inv := by
  rw [Table.allow]
  split
  · exact h
  split
  · exact h
  · next slot hfind =>
    obtain ⟨hpeer, hsame⟩ := (t.inbound.records slot).allow_frame
    exact h.store_in hpeer hsame

theorem Inv.answer (h : t.Inv) (peerSlot transferId : ℕ) : (t.answer peerSlot transferId).2.Inv := by
  rw [Table.answer]
  split
  · exact h
  · next slot hfind =>
    obtain ⟨hpeer, hsame⟩ := (t.inbound.records slot).answerDebt_frame
    exact h.store_in hpeer hsame

variable {transferId : ℕ}

theorem Inv.reject (h : t.Inv)
    (hok : t.Orderly (.reject peerSlot transferId)) : (t.reject peerSlot transferId).2.Inv := by
  rw [Table.reject]
  split
  · exact h
  · next slot hfind =>
    obtain ⟨hleased, hpeer, -⟩ := h.inbound.leased_of_find hfind
    rw [← hpeer]
    exact h.closed_in hleased (hok slot hfind)

theorem Inv.complete (h : t.Inv)
    (hok : t.Orderly (.complete peerSlot transferId)) : (t.complete peerSlot transferId).2.Inv := by
  rw [Table.complete]
  split
  · exact h
  · next slot hfind =>
    obtain ⟨hleased, hpeer, -⟩ := h.inbound.leased_of_find hfind
    split
    · rw [← hpeer]
      exact h.closed_in hleased (hok slot hfind)
    · exact h

/-- A call rewrites the record of one send: it is as far over as before, or it gets over now
and its entry is queued. -/
inductive Rewrites (t : Table) : Table → Prop
  | same : t.Rewrites t
  | store {slot : ℕ} {r : OutTransfer} (hpeer : r.peerSlot = (t.outbound.records slot).peerSlot)
    (hover : r.over = (t.outbound.records slot).over) :
    t.Rewrites { t with outbound := t.outbound.store slot r }
  | push {slot : ℕ} {r : OutTransfer} (hleased : t.outbound.Leased slot)
    (hpeer : r.peerSlot = (t.outbound.records slot).peerSlot)
    (hopen : (t.outbound.records slot).over = false) (hover : r.over = true) (outcome : Error) :
    t.Rewrites ({ t with outbound := t.outbound.store slot r }.push slot false outcome)

theorem onAck_rewrites (h : t.outbound.Sound OutTransfer.peerSlot) {recvNext : ℕ}
    {bitmap : List Bool} {now : ℕ}
    (hok : t.Orderly (.onAck peerSlot transferId recvNext bitmap now)) :
    t.Rewrites (t.onAck peerSlot transferId recvNext bitmap now).2 := by
  rw [Table.onAck]
  split
  · exact .same
  · next slot hfind =>
    have hpeer := (t.outbound.records slot).onAck_peerSlot recvNext bitmap now
    dsimp only
    rcases (t.outbound.records slot).onAck_over recvNext bitmap now with
      ⟨hflag, hsame⟩ | ⟨hflag, hover⟩
    · rw [hflag]
      exact .store hpeer hsame
    · have hopen : (t.outbound.records slot).over = false := by
        rw [Bool.eq_false_iff]
        intro hover
        have hshort := hok slot hfind hover
        have hend := (OutTransfer.onAck_finished now _ recvNext bitmap).mp hflag
        omega
      rw [hflag]
      exact .push (h.leased_of_find hfind).1 hpeer hopen hover .ok

theorem onRefused_rewrites (h : t.outbound.Sound OutTransfer.peerSlot)
    (hok : t.Orderly (.onRefused peerSlot transferId)) :
    t.Rewrites (t.onRefused peerSlot transferId).2 := by
  rw [Table.onRefused]
  split
  · exact .same
  · next slot hfind =>
    have hpeer := (t.outbound.records slot).onRefused_peerSlot
    have hover := (t.outbound.records slot).onRefused_over
    dsimp only
    rw [settleSend, OutTransfer.onRefused_finishes]
    by_cases hopen : (t.outbound.records slot).over = true
    · rw [hok slot hfind hopen]
      exact .store hpeer (hover.trans hopen.symm)
    · have hnot : (t.outbound.records slot).refused = false := by
        rw [Bool.eq_false_iff]
        intro hrefused
        exact hopen ((OutTransfer.over_eq_true _).mpr (.inl hrefused))
      rw [hnot]
      exact .push (h.leased_of_find hfind).1 hpeer (Bool.eq_false_of_not_eq_true hopen) hover
        .refused

theorem pass_rewrites (peerSlot transferId : ℕ) (peer : Peer.PeerBudget) (queued : ℕ)
    (times : Intervals) (now : ℕ) :
    t.Rewrites (t.pass peerSlot transferId peer queued times now).2 := by
  rw [Table.pass]
  split
  · exact .same
  · next slot hfind =>
    obtain ⟨hpeer, hsame⟩ := OutTransfer.standing_frame
      ((Turn.fresh peer (t.outbound.records slot) queued).run_standing times now)
    exact .store hpeer hsame

theorem Inv.rewrites (h : t.Inv) {t' : Table} (hr : t.Rewrites t') : t'.Inv := by
  cases hr with
  | same => exact h
  | store hpeer hover => exact h.store_out hpeer hover
  | push hleased hpeer hopen hover outcome => exact h.push_out hleased hpeer hopen hover outcome

theorem Inv.call (h : t.Inv) (c : Call) (hok : t.Orderly c) : (t.call c).Inv := by
  cases c with
  | beginSend peerSlot peer transferId buffer length hint =>
    exact h.beginSend peerSlot peer transferId buffer length hint
  | onAnnounce peerSlot peer transferId length stride hint =>
    exact h.onAnnounce peerSlot peer transferId length stride hint
  | onData peerSlot transferId seq payload => exact h.onData peerSlot transferId seq payload
  | allow peerSlot transferId buffer => exact h.allow peerSlot transferId buffer
  | reject peerSlot transferId => exact h.reject hok
  | complete peerSlot transferId => exact h.complete hok
  | answer peerSlot transferId => exact h.answer peerSlot transferId
  | onAck peerSlot transferId recvNext bitmap now =>
    exact h.rewrites (onAck_rewrites h.outbound hok)
  | onRefused peerSlot transferId => exact h.rewrites (onRefused_rewrites h.outbound hok)
  | pass peerSlot transferId peer queued times now =>
    exact h.rewrites (pass_rewrites peerSlot transferId peer queued times now)
  | sweepPeer peerSlot => exact h.sweepPeer hok.1 hok.2
  | drainFinished max => exact h.drainFinished max

theorem init_cases {outCount inCount maxPeers maxTransferBytes : ℕ}
    (h : init outCount inCount maxPeers maxTransferBytes = some t) :
    ∃ outbound inbound, Side.init outCount maxPeers OutTransfer.blank = some outbound ∧
      Side.init inCount maxPeers InTransfer.blank = some inbound ∧
      t = ⟨if maxTransferBytes ≠ 0 then maxTransferBytes else transferMaxBytesDefault,
        outbound, inbound, [], [], []⟩ := by
  unfold init at h
  split at h
  · cases h
  · simp only [Option.bind_eq_bind, Option.bind_eq_some_iff] at h
    obtain ⟨outbound, hout, inbound, hin, heq⟩ := h
    exact ⟨outbound, inbound, hout, hin, (Option.some.inj heq).symm⟩

theorem inv_init {outCount inCount maxPeers maxTransferBytes : ℕ}
    (h : init outCount inCount maxPeers maxTransferBytes = some t)
    (hexact : SplitUse.Exact outCount inCount) : t.Inv := by
  obtain ⟨outbound, inbound, hout, hin, rfl⟩ := init_cases h
  obtain ⟨hpout, hpin, hsum⟩ := hexact
  have hsout : outbound.Sound OutTransfer.peerSlot := Side.sound_init hout hpout (by omega)
  have hsin : inbound.Sound InTransfer.peerSlot := Side.sound_init hin hpin (by omega)
  have hfresh : (∀ i, ¬ outbound.Leased i) ∧ ∀ i, ¬ inbound.Leased i :=
    ⟨Side.not_leased_init hout, Side.not_leased_init hin⟩
  refine ⟨hsout, hsin, ?_, Lending.kept_nil ?_, fun r hr => by cases hr⟩
  · rw [ring, Side.count_init hout, Side.count_init hin]
    exact Nat.mod_eq_of_lt hsum
  · intro d i
    cases d
    · exact hfresh.1 i
    · exact hfresh.2 i

/-- Finished entries and slots are owned.  A transfer that is over has queued one entry and
any other none, no transfer ever queues two, the slot of an entry is leased to the transfer
that queued it while the entry waits and when it is read, and no slot is released more
often than it was acquired. -/
structure Owned (t : Table) : Prop where
  sent_once : ∀ i, t.outbound.Leased i → t.pushes.count (false, t.outbound.serial i) =
    if (t.outbound.records i).over then 1 else 0
  received_once : ∀ i, t.inbound.Leased i → t.pushes.count (true, t.inbound.serial i) =
    if (t.inbound.records i).complete then 1 else 0
  never_twice : ∀ key, t.pushes.count key ≤ 1
  queue_held : ∀ e ∈ t.finished, t.holds e = true
  reads_held : ∀ r ∈ t.reads, r.2 = true
  out_released : ∀ i, t.outbound.released i ≤ t.outbound.acquired i
  in_released : ∀ i, t.inbound.released i ≤ t.inbound.acquired i

theorem Inv.owned (h : t.Inv) : t.Owned where
  sent_once _ hi := h.kept.count_eq (d := false) hi Iff.rfl
  received_once _ hi := h.kept.count_eq (d := true) hi Iff.rfl
  never_twice := List.nodup_iff_count_le_one.mp h.kept.nodup
  queue_held _ he := h.holds he
  reads_held := h.read
  out_released i := (h.outbound.counts i).1
  in_released i := (h.inbound.counts i).1

/-- In every run of orderly calls on a table whose counts its pools do not round, entries
and slots are owned. -/
theorem finished_entries_owned (outCount inCount maxPeers maxTransferBytes : ℕ)
    (hexact : SplitUse.Exact outCount inCount) (t : Table)
    (hinit : init outCount inCount maxPeers maxTransferBytes = some t) (calls : List Call)
    (horderly : Along call Orderly t calls) : (run call t calls).Owned :=
  (run_invariant call Inv Orderly (fun _ c hok h => h.call c hok) (inv_init hinit hexact)
    horderly).owned

def ackOf (transferId recvNext now : ℕ) : Call :=
  .onAck 0 transferId recvNext (List.replicate transferWindow false) now

/-- Two sends of one packet each; the first is announced, sent and acknowledged. -/
def twoSends : List Call :=
  [.beginSend 0 ⟨[], 0, 0⟩ 1 (some fun _ => 7) 2 0, .beginSend 0 ⟨[], 0, 0⟩ 2 (some fun _ => 7) 2 0,
    .pass 0 1 Link.idlePeer 0 ⟨1000, 0⟩ 1, ackOf 1 0 2, .pass 0 1 Link.idlePeer 0 ⟨1000, 0⟩ 3,
    ackOf 1 1 4]

theorem finished_entries_owned_two_sends : ∃ t, init 64 0 4 100 = some t ∧
    SplitUse.Exact 64 0 ∧ Along call Orderly t (twoSends ++ [.drainFinished 2]) ∧
    (run call t (twoSends ++ [.drainFinished 2])).Owned := by
  have hexact : SplitUse.Exact 64 0 := ⟨.inr ⟨6, rfl⟩, .inl rfl, by decide⟩
  have hsome : (init 64 0 4 100).isSome := by decide +kernel
  have horderly : ∀ t ∈ init 64 0 4 100, Along call Orderly t (twoSends ++ [.drainFinished 2]) := by
    decide +kernel
  obtain ⟨t, ht⟩ := Option.isSome_iff_exists.mp hsome
  exact ⟨t, ht, hexact, horderly t ht,
    finished_entries_owned 64 0 4 100 hexact t ht _ (horderly t ht)⟩

/-- The last acknowledgement arrives twice: the send queues two entries, and the drain that
reads both releases its slot twice.  An incoming transfer is completed before its entry is
read: the entry is read on a slot nobody holds. -/
theorem second_ack_queues_twice :
    (init 64 0 4 100).map (fun t =>
      let t' := run call t (twoSends ++ [ackOf 1 1 5, .drainFinished 2])
      (t'.pushes.count (false, 0), t'.reads.map Prod.snd, t'.outbound.acquired 0,
        t'.outbound.released 0)) = some (2, [true, false], 1, 2) ∧
    (init 0 64 4 100).map (fun t =>
      (run call t [.onAnnounce 0 ⟨[], 0, 0⟩ 1 2 transferStride 0, .allow 0 1 true,
        .onData 0 1 0 [7, 7], .complete 0 1, .drainFinished 1]).reads.map Prod.snd) =
      some [false] := by
  decide +kernel

end Table

end BcpFlux.Transfer
