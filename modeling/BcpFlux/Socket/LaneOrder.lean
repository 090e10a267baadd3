import BcpFlux.Socket.Lane

/-! # Messages keep their place in line

What was stamped, then what waits for a stamp, then what is in the open batch: read in
this order the messages of a lane are those whose `Send` returned `Ok`, in the order of
the calls.  An unreliable flow may leave some out.
-/

namespace BcpFlux.Socket
open Library Wire BcpFlux.Flow Peer

/-- The sequences of an association, in the order they are handed out. -/
def nthSeq (n : ℕ) : ℕ := succSeq^[n] 1

theorem nthSeq_succ (n : ℕ) : nthSeq (n + 1) = succSeq (nthSeq n) :=
  Function.iterate_succ_apply' succSeq n 1

theorem nthSeq_eq {n : ℕ} (h : n + 1 < 2 ^ 32) : nthSeq n = n + 1 := by
  induction n with
  | zero => rfl
  | succ n ih => rw [nthSeq_succ, ih (by omega), succSeq_of_lt h]

/-- Zero stands for never sent, so the wrap goes from the last number to one. -/
theorem nthSeq_wraps {n : ℕ} (hn : n + 1 = 2 ^ 32) : nthSeq n = 1 := by
  obtain ⟨m, rfl⟩ : ∃ m, n = m + 1 := ⟨n - 1, by omega⟩
  rw [nthSeq_succ, nthSeq_eq (by omega), succSeq, u32, hn]
  rfl

theorem nthSeq_ne_zero (n : ℕ) : nthSeq n ≠ 0 := by
  cases n with
  | zero => exact Nat.one_ne_zero
  | succ n =>
    rw [nthSeq_succ]
    exact SenderSide.succSeq_ne_zero _

namespace Lane

def carried (l : Lane) : List ℕ := l.stamps.flatMap Prod.snd

/-- The messages with a sequence, and those in the queue for one. -/
def line (l : Lane) : List ℕ := l.carried ++ l.waitingIds.flatten

/-- The messages of the open batch no flush has placed yet. -/
def unsent (l : Lane) : List ℕ :=
  match l.flush with
  | some ⟨_, _, .placed⟩ | some ⟨_, _, .sealed⟩ => []
  | _ => l.batched

/-- The association, once there is one, has not been torn down. -/
def Open (l : Lane) : Prop := ∀ flow, l.assoc = some flow → flow.life = .opened

/-- The association agrees with what is recorded of its packets. -/
structure LineShape (l : Lane) : Prop where
  mode : ∀ flow, l.assoc = some flow → flow.mode = l.mode
  waiting : ∀ flow, l.assoc = some flow → flow.waiting.length = l.waitingIds.length
  next : ∀ flow, l.assoc = some flow → flow.nextSeq = nthSeq l.stamps.length
  fresh : l.assoc = none → l.stamps = [] ∧ l.waitingIds = []
  numbered : ∀ i stamp, l.stamps[i]? = some stamp → stamp.1 = nthSeq i

/-- There is a batch only on an association of an established peer, and a flush that
carries a copy of it keeps it as it is. -/
structure BatchShape (l : Lane) : Prop where
  fresh : l.assoc = none → l.batch.buffer = []
  quiet : l.established = false → l.batch.buffer = []
  empty : l.batch.buffer = [] → l.batched = []
  idle : l.flush = none → l.batch.inFlight = false
  copy : ∀ f, l.flush = some f → f.bytes = l.batch.buffer ∧ f.ids = l.batched ∧
    l.batch.buffer ≠ [] ∧ l.batch.inFlight = true
  /-- No packet of the flow is parked: reliable bodies wait in staging instead. -/
  direct : l.mode ≠ .unreliable ∨ l.established = true
  parked : l.parked = []

/-- The messages in line are those of `order`, except for what an unreliable flow drops. -/
structure Keeps (mode : FlowMode) (l : Lane) (order : List ℕ) : Prop where
  kind : l.mode = mode
  line : l.LineShape
  batch : l.BatchShape
  sub : (l.line ++ l.unsent).Sublist order
  whole : mode ≠ .unreliable → l.Open → l.line ++ l.unsent = order

variable {mode : FlowMode} {l l' : Lane} {order order' ids : List ℕ}

/-- A step of the association: the batch and the logs of the calls are left alone. -/
structure Moved (l l' : Lane) : Prop where
  rest : l' = { l with assoc := l'.assoc, stamps := l'.stamps, waitingIds := l'.waitingIds }
  shape : l'.LineShape
  made : l'.assoc = none → l.assoc = none
  opened : l'.Open → l.Open

theorem Moved.unsent (h : Moved l l') : l'.unsent = l.unsent := by
  rw [h.rest]
  rfl

theorem Moved.mode_eq (h : Moved l l') : l'.mode = l.mode := by
  rw [h.rest]

theorem Moved.established (h : Moved l l') : l'.established = l.established := by
  rw [h.rest]

theorem Moved.batched_eq (h : Moved l l') : l'.batched = l.batched := by
  rw [h.rest]

theorem Moved.flush_eq (h : Moved l l') : l'.flush = l.flush := by
  rw [h.rest]

theorem Moved.refl (h : l.LineShape) : Moved l l := ⟨rfl, h, id, id⟩

theorem Moved.batch (h : Moved l l') (hbatch : l.BatchShape) : l'.BatchShape := by
  have hmade := h.made
  rw [h.rest]
  exact ⟨fun hnone => hbatch.fresh (hmade hnone), hbatch.quiet, hbatch.empty, hbatch.idle,
    hbatch.copy, hbatch.direct, hbatch.parked⟩

/-- What a step of the association has to show for the line. -/
theorem Keeps.moved (h : l.Keeps mode order) (hmoved : Moved l l')
    (hsub : (l'.line ++ l.unsent).Sublist order')
    (hwhole : mode ≠ .unreliable → l'.Open → l'.line ++ l.unsent = order') :
    l'.Keeps mode order' where
  kind := hmoved.mode_eq.trans h.kind
  line := hmoved.shape
  batch := hmoved.batch h.batch
  sub := by
    rw [hmoved.unsent]
    exact hsub
  whole := by
    rw [hmoved.unsent]
    exact hwhole

theorem Keeps.same_line (h : l.Keeps mode order) (hmoved : Moved l l') (hline : l'.line = l.line) :
    l'.Keeps mode order := by
  apply h.moved hmoved
  · rw [hline]
    exact h.sub
  · intro hmode hopen
    rw [hline]
    exact h.whole hmode (hmoved.opened hopen)

/-! ## Admission -/

variable {flow : OutAssociation}

theorem findOrCreate_cases (h : l.LineShape) {c : LaneChoices}
    (hfound : l.findOrCreate c = some flow) :
    flow.mode = l.mode ∧ flow.waiting.length = l.waitingIds.length ∧
      flow.nextSeq = nthSeq l.stamps.length ∧ (flow.life = .opened → l.Open) := by
  unfold findOrCreate at hfound
  split at hfound
  · next found hassoc =>
    cases hfound
    refine ⟨h.mode _ hassoc, h.waiting _ hassoc, h.next _ hassoc, ?_⟩
    intro hlife other hother
    rw [hassoc] at hother
    cases hother
    exact hlife
  · next hassoc =>
    obtain ⟨hstamps, hwaiting⟩ := h.fresh hassoc
    split at hfound
    · cases hfound
      refine ⟨rfl, by rw [hwaiting]; rfl, by rw [hstamps]; rfl, ?_⟩
      intro _ other hother
      rw [hassoc] at hother
      cases hother
    · cases hfound

theorem LineShape.setAssoc (h : l.LineShape) (flow : OutAssociation) (waitingIds : List (List ℕ))
    (hmode : flow.mode = l.mode) (hwaiting : flow.waiting.length = waitingIds.length)
    (hnext : flow.nextSeq = nthSeq l.stamps.length) :
    ({ l with assoc := some flow, waitingIds := waitingIds } : Lane).LineShape where
  mode := by
    intro other hother
    cases hother
    exact hmode
  waiting := by
    intro other hother
    cases hother
    exact hwaiting
  next := by
    intro other hother
    cases hother
    exact hnext
  fresh := fun hnone => by cases hnone
  numbered := h.numbered

theorem numbered_append {stamps : List (ℕ × List ℕ)}
    (h : ∀ i stamp, stamps[i]? = some stamp → stamp.1 = nthSeq i) {seq : ℕ}
    (hseq : seq = nthSeq stamps.length) (ids : List ℕ) (i : ℕ) (stamp : ℕ × List ℕ)
    (hi : (stamps ++ [(seq, ids)])[i]? = some stamp) : stamp.1 = nthSeq i := by
  rcases Nat.lt_or_ge i stamps.length with hlt | hge
  · rw [List.getElem?_append_left hlt] at hi
    exact h i stamp hi
  · rw [List.getElem?_append_right hge] at hi
    rw [List.getElem?_singleton] at hi
    split at hi
    · next hzero =>
      cases hi
      have hlen : i = stamps.length := by omega
      rw [hlen]
      exact hseq
    · cases hi

theorem LineShape.stamped (h : l.LineShape) (flow flow' : OutAssociation)
    (hmode : flow'.mode = l.mode) (hnext : flow.nextSeq = nthSeq l.stamps.length)
    (hnext' : flow'.nextSeq = succSeq flow.nextSeq) (ids : List ℕ) (waitingIds : List (List ℕ))
    (hwaiting : flow'.waiting.length = waitingIds.length) :
    ({ l with
      assoc := some flow'
      stamps := l.stamps ++ [(flow.nextSeq, ids)]
      waitingIds := waitingIds } : Lane).LineShape where
  mode := by
    intro other hother
    cases hother
    exact hmode
  waiting := by
    intro other hother
    cases hother
    exact hwaiting
  next := by
    intro other hother
    cases hother
    simp only [List.length_append, List.length_singleton]
    rw [nthSeq_succ, ← hnext]
    exact hnext'
  fresh := fun hnone => by cases hnone
  numbered := numbered_append h.numbered hnext ids

theorem moved_of_assoc {stamps : List (ℕ × List ℕ)}
    {waitingIds : List (List ℕ)}
    (hshape : ({ l with assoc := some flow, stamps := stamps, waitingIds := waitingIds } :
      Lane).LineShape) (hopen : flow.life = .opened → l.Open) :
    Moved l { l with assoc := some flow, stamps := stamps, waitingIds := waitingIds } where
  rest := rfl
  shape := hshape
  made := fun hnone => by cases hnone
  opened := fun h => hopen (h flow rfl)

/-- An admission that takes the packet puts its messages at the end of the line; only an
unreliable flow drops some, or the packet. -/
theorem admit_line (h : l.LineShape) (ids : List ℕ) (packet : Datagram) (c : LaneChoices) :
    let r := l.admitOut ids packet c
    Moved l r.2 ∧
      (r.1 = .sent ∨ r.1 = .queued → r.2.line.Sublist (l.line ++ ids) ∧
        (l.mode ≠ .unreliable → r.2.line = l.line ++ ids)) ∧
      (r.1 ≠ .sent → r.1 ≠ .queued → r.2.line = l.line) ∧
      (r.1 = .dropped → l.mode = .unreliable) := by
  unfold admitOut
  split
  · exact ⟨Moved.refl h, by simp, fun _ _ => rfl, by simp⟩
  · next flow hfound =>
    obtain ⟨hmode, hlen, hnext, hlife⟩ := findOrCreate_cases h hfound
    have hadmitted := flow.admitOut_admission c.budget c.slot packet.length l.established c.now
    dsimp only
    generalize flow.admitOut c.budget c.slot packet.length l.established c.now = r at hadmitted ⊢
    cases hadmitted with
    | refused verdict _ _ hsent hqueued hdropped =>
      -- not taken: nothing changes but that the association may be new
      have hplace : ({ l with assoc := some flow } : Lane).place flow.nextSeq verdict [] ids =
          { l with assoc := some flow } := by
        cases verdict with
        | sent => exact absurd rfl hsent
        | queued => exact absurd rfl hqueued
        | dropped => rfl
        | rejected => rfl
        | dead => rfl
      rw [hplace]
      refine ⟨moved_of_assoc (h.setAssoc flow l.waitingIds hmode hlen hnext) hlife, ?_,
        fun _ _ => rfl, ?_⟩
      · rintro (hv | hv)
        · exact absurd hv hsent
        · exact absurd hv hqueued
      · rw [← hmode]
        exact hdropped
    | stamped _ hnone =>
      have hempty : l.waitingIds = [] := by
        rw [hnone, List.length_nil] at hlen
        exact List.eq_nil_of_length_eq_zero hlen.symm
      have hshape := h.stamped flow (flow.stamp (c.budget.pacingAllows c.now packet.length).1
        (if flow.mode = .unreliable then none else some c.slot) packet.length l.established
        c.now).1 hmode hnext rfl ids l.waitingIds hlen
      have hline : ({ l with
          assoc := some (flow.stamp (c.budget.pacingAllows c.now packet.length).1
            (if flow.mode = .unreliable then none else some c.slot) packet.length l.established
            c.now).1
          stamps := l.stamps ++ [(flow.nextSeq, ids)] } : Lane).line = l.line ++ ids := by
        simp [line, carried, hempty]
      refine ⟨moved_of_assoc hshape hlife, fun _ => ⟨?_, fun _ => hline⟩, by simp [place], by simp⟩
      exact hline ▸ List.Sublist.refl _
    | queued =>
      have hlen' : (flow.enqueueWaiting c.slot packet.length c.now).waiting.length =
          (l.waitingIds ++ [ids]).length := by
        simp [OutAssociation.enqueueWaiting, hlen]
      have hshape := h.setAssoc (flow.enqueueWaiting c.slot packet.length c.now)
        (l.waitingIds ++ [ids]) hmode hlen' hnext
      have hline : ({ l with
          assoc := some (flow.enqueueWaiting c.slot packet.length c.now)
          waitingIds := l.waitingIds ++ [ids] } : Lane).line = l.line ++ ids := by
        simp [line, carried]
      refine ⟨moved_of_assoc hshape hlife, fun _ => ⟨?_, fun _ => hline⟩, by simp [place], by simp⟩
      exact hline ▸ List.Sublist.refl _
    | evicted _ _ _ _ hunreliable oldest rest hwaiting =>
      have hcons : ∃ first others, l.waitingIds = first :: others := by
        rw [hwaiting, List.length_cons] at hlen
        exact List.exists_cons_of_length_pos (by omega)
      obtain ⟨first, others, hids⟩ := hcons
      have hlen' : (({ flow with waiting := rest } : OutAssociation).enqueueWaiting c.slot
          packet.length c.now).waiting.length = (others ++ [ids]).length := by
        rw [hwaiting, hids, List.length_cons, List.length_cons] at hlen
        simp only [OutAssociation.enqueueWaiting, List.length_append, List.length_singleton]
        omega
      have hshape := h.setAssoc (({ flow with waiting := rest } :
        OutAssociation).enqueueWaiting c.slot packet.length c.now) (others ++ [ids]) hmode hlen' hnext
      have hplace : ({ l with
          assoc := some (({ flow with waiting := rest } : OutAssociation).enqueueWaiting c.slot
            packet.length c.now) } : Lane).place flow.nextSeq .queued [oldest.packetSlot] ids =
          { l with
            assoc := some (({ flow with waiting := rest } : OutAssociation).enqueueWaiting c.slot
              packet.length c.now)
            waitingIds := others ++ [ids] } := by
        simp [place, hids]
      rw [hplace]
      refine ⟨moved_of_assoc hshape hlife, fun _ => ⟨?_, fun hreliable => ?_⟩, by simp, by simp⟩
      · simp only [line, carried, hids, List.flatten_append, List.flatten_cons, List.flatten_nil,
          List.append_nil, List.append_assoc]
        exact (List.Sublist.refl _).append (List.sublist_append_right first _)
      · exact absurd (hmode ▸ hunreliable) hreliable

/-- What a pass through `PreProcessOut` does to the line: a packet that goes to the kernel
was accepted, an accepted one joined the line, a refused one left no trace. -/
structure Passed (l : Lane) (ids : List ℕ) (r : Lane × Bool × SendStatus) : Prop where
  moved : Moved l r.1
  sealed : r.2.1 = true → r.2.2 = .ok
  sub : r.2.2 = .ok → r.1.line.Sublist (l.line ++ ids)
  whole : r.2.2 = .ok → l.mode ≠ .unreliable → r.1.line = l.line ++ ids
  refused : r.2.2 ≠ .ok → r.1.line = l.line

theorem passed_refused (h : l.LineShape) (ids : List ℕ) {status : SendStatus}
    (hstatus : status ≠ .ok) : Passed l ids (l, false, status) where
  moved := Moved.refl h
  sealed := by simp
  sub := fun hok => absurd hok hstatus
  whole := fun hok => absurd hok hstatus
  refused := fun _ => rfl

theorem preProcessOut_passed (h : l.LineShape) (hbatch : l.BatchShape) (ids : List ℕ)
    (packet : Datagram) (authFails : Bool) (c : LaneChoices) :
    Passed l ids (l.preProcessOut ids packet authFails c) := by
  unfold preProcessOut
  split
  · exact passed_refused h ids (by decide)
  split
  · exact passed_refused h ids (by decide)
  split
  · exact passed_refused h ids (by decide)
  obtain ⟨hmoved, htaken, hnot, hdropped⟩ := admit_line h ids packet c
  generalize l.admitOut ids packet c = r at hmoved htaken hnot hdropped ⊢
  obtain ⟨verdict, placed⟩ := r
  cases verdict with
  | sent =>
    have hline := htaken (Or.inl rfl)
    -- a body that cannot go yet is a reliable one, and waits in staging
    have hdirect : placed.established = true ∨ placed.retains = true := by
      rw [hmoved.established, retains, hmoved.mode_eq]
      rcases hbatch.direct with hmode | hup
      · exact Or.inr (by simpa using hmode)
      · exact Or.inl hup
    simp only [afterAdmit]
    split
    · exact ⟨hmoved, fun _ => rfl, fun _ => hline.1, fun _ => hline.2, fun hne => absurd rfl hne⟩
    · next hdown =>
      rw [if_pos (hdirect.resolve_left hdown)]
      exact ⟨hmoved, by simp, fun _ => hline.1, fun _ => hline.2, fun hne => absurd rfl hne⟩
  | queued =>
    have hline := htaken (Or.inr rfl)
    exact ⟨hmoved, by simp [afterAdmit], fun _ => hline.1, fun _ => hline.2,
      fun hne => absurd rfl hne⟩
  | dropped =>
    have hline : placed.line = l.line := hnot (by simp) (by simp)
    refine ⟨hmoved, by simp [afterAdmit], fun _ => ?_, fun _ hmode => ?_, fun hne => absurd rfl hne⟩
    · exact hline ▸ List.sublist_append_left _ _
    · exact absurd (hdropped rfl) hmode
  | rejected =>
    exact ⟨hmoved, by simp [afterAdmit], by simp [afterAdmit], by simp [afterAdmit],
      fun _ => hnot (by simp) (by simp)⟩
  | dead =>
    exact ⟨hmoved, by simp [afterAdmit], by simp [afterAdmit], by simp [afterAdmit],
      fun _ => hnot (by simp) (by simp)⟩

theorem Keeps.sendNow (h : l.Keeps mode order) (hempty : l.batch.buffer = []) (ids : List ℕ)
    (packet : Datagram) (authFails : Bool) (c : LaneChoices) :
    let r := l.sendNow ids packet authFails c true
    (r.2 = .ok → r.1.Keeps mode (order ++ ids)) ∧ (r.2 ≠ .ok → r.1.Keeps mode order) := by
  have hpassed := preProcessOut_passed h.line h.batch ids packet authFails c
  have hunsent : l.unsent = [] := by
    have hbatched := h.batch.empty hempty
    unfold unsent
    split
    · rfl
    · rfl
    · exact hbatched
  have hsub := h.sub
  have hwhole := h.whole
  rw [hunsent, List.append_nil] at hsub hwhole
  have hstatus : (l.sendNow ids packet authFails c true).2 =
      (l.preProcessOut ids packet authFails c).2.2 := by
    simp only [Lane.sendNow, if_true]
    split
    · next hsealed => exact (hpassed.sealed hsealed).symm
    · rfl
  intro r
  rw [hstatus]
  constructor
  · intro hok
    apply h.moved hpassed.moved
    · rw [hunsent, List.append_nil]
      exact (hpassed.sub hok).trans (hsub.append (List.Sublist.refl ids))
    · intro hmode hopen
      rw [hunsent, List.append_nil]
      rw [← hwhole hmode (hpassed.moved.opened hopen)]
      exact hpassed.whole hok (h.kind ▸ hmode)
  · intro hne
    exact h.same_line hpassed.moved (hpassed.refused hne)

variable {bodySlot : Bool} {taken : Lane}

/-! ## The flush -/

theorem Keeps.takeBatch (h : l.Keeps mode order)
    (htaken : (l.takeBatch bodySlot).1 = some taken) :
    taken.Keeps mode order := by
  unfold Lane.takeBatch at htaken
  split at htaken
  · cases htaken
  split at htaken
  · cases htaken
  unfold OpenBatch.takeBatch at htaken
  split at htaken
  · cases htaken
  · next hpeek hslot bytes batch htake =>
    split at htake
    · next hopen =>
      cases htake
      cases htaken
      have hidle : l.flush = none := by
        cases hflush : l.flush with
        | none => rfl
        | some f =>
          have hcopy := h.batch.copy f hflush
          rw [hopen.2.2] at hcopy
          simp at hcopy
      have hunsent : l.unsent = l.batched := by
        simp [unsent, hidle]
      have hsub := h.sub
      have hwhole := h.whole
      rw [hunsent] at hsub hwhole
      refine ⟨h.kind, ⟨h.line.mode, h.line.waiting, h.line.next, h.line.fresh, h.line.numbered⟩,
        ⟨h.batch.fresh, h.batch.quiet, h.batch.empty, by simp, ?_, h.batch.direct,
          h.batch.parked⟩, hsub, hwhole⟩
      intro f hf
      cases hf
      exact ⟨rfl, rfl, hopen.1, rfl⟩
    · cases htake

variable {f : FlushCopy}

theorem BatchShape.setPhase (h : l.BatchShape) (hflush : l.flush = some f)
    (phase : FlushPhase) :
    ({ l with flush := some { f with phase := phase } } : Lane).BatchShape where
  __ := h
  idle := by simp
  copy := by
    intro f' hf'
    cases hf'
    exact h.copy f hflush

/-- A flush goes on to its next phase, and `tail` is what it leaves unsent. -/
theorem Keeps.setPhase (h : l.Keeps mode order) (hmoved : Moved l l')
    (hflush : l.flush = some f) {phase : FlushPhase} (tail : List ℕ)
    (htail : ({ l' with flush := some { f with phase := phase } } : Lane).unsent = tail)
    (hsub : (l'.line ++ tail).Sublist order)
    (hwhole : mode ≠ .unreliable → l.Open → l'.line ++ tail = order) :
    ({ l' with flush := some { f with phase := phase } } : Lane).Keeps mode order where
  kind := hmoved.mode_eq.trans h.kind
  line := ⟨hmoved.shape.mode, hmoved.shape.waiting, hmoved.shape.next, hmoved.shape.fresh,
    hmoved.shape.numbered⟩
  batch := (hmoved.batch h.batch).setPhase (hmoved.flush_eq.trans hflush) phase
  sub := by
    rw [htail]
    exact hsub
  whole := by
    intro hmode hopen
    rw [htail]
    exact hwhole hmode (hmoved.opened hopen)

theorem Keeps.admitBatch (h : l.Keeps mode order) (c : LaneChoices) :
    (l.admitBatch c).1.Keeps mode order := by
  unfold Lane.admitBatch
  split
  · next bytes ids hflush =>
    obtain ⟨-, hids, -, -⟩ := h.batch.copy _ hflush
    subst hids
    have hunsent : l.unsent = l.batched := by
      simp [unsent, hflush]
    have hsub := h.sub
    have hwhole := h.whole
    rw [hunsent] at hsub hwhole
    have hpassed := preProcessOut_passed h.line h.batch l.batched bytes false c
    by_cases hok : (l.preProcessOut l.batched bytes false c).2.2 = .ok
    · -- accepted: the messages are in line now, and not in the batch any more
      apply h.setPhase hpassed.moved hflush []
      · cases hsealed : (l.preProcessOut l.batched bytes false c).2.1 with
        | true => simp [unsent]
        | false => simp [unsent, hok]
      · rw [List.append_nil]
        exact (hpassed.sub hok).trans hsub
      · intro hmode hopen
        rw [List.append_nil, ← hwhole hmode hopen]
        exact hpassed.whole hok (h.kind ▸ hmode)
    · have hopen : (l.preProcessOut l.batched bytes false c).2.1 = false := by
        rw [Bool.eq_false_iff]
        exact fun hsealed => hok (hpassed.sealed hsealed)
      apply h.setPhase hpassed.moved hflush l.batched
      · simp only [hopen, hok, Bool.false_eq_true, if_false, unsent]
        exact hpassed.moved.batched_eq
      · rw [hpassed.refused hok]
        exact hsub
      · rw [hpassed.refused hok]
        exact hwhole
  · exact h

theorem Keeps.finishBatch_spent (h : l.Keeps mode order) (hflush : l.flush = some f)
    (hunsent : l.unsent = []) : (l.finishBatch f.bytes.length true).Keeps mode order := by
  obtain ⟨hbytes, -, -, -⟩ := h.batch.copy f hflush
  have hsub := h.sub
  have hwhole := h.whole
  rw [hunsent] at hsub hwhole
  have hempty : l.batch.finishBatch f.bytes.length true = .empty := by
    simp [OpenBatch.finishBatch, hbytes]
  simp only [Lane.finishBatch, hempty]
  exact ⟨h.kind, ⟨h.line.mode, h.line.waiting, h.line.next, h.line.fresh, h.line.numbered⟩,
    ⟨fun _ => rfl, fun _ => rfl, fun _ => rfl, fun _ => rfl, by simp, h.batch.direct,
      h.batch.parked⟩, hsub, hwhole⟩

theorem Keeps.finishBatch_kept (h : l.Keeps mode order) (hflush : l.flush = some f)
    (hunsent : l.unsent = l.batched) : (l.finishBatch f.bytes.length false).Keeps mode order := by
  obtain ⟨-, -, hopen, -⟩ := h.batch.copy f hflush
  have hsub := h.sub
  have hwhole := h.whole
  rw [hunsent] at hsub hwhole
  simp only [Lane.finishBatch, OpenBatch.finishBatch, Bool.false_eq_true, false_and, if_false,
    if_neg hopen]
  exact ⟨h.kind, ⟨h.line.mode, h.line.waiting, h.line.next, h.line.fresh, h.line.numbered⟩,
    ⟨h.batch.fresh, h.batch.quiet, h.batch.empty, fun _ => rfl, by simp, h.batch.direct,
      h.batch.parked⟩, hsub, hwhole⟩

theorem Keeps.settle (h : l.Keeps mode order) : (l.settle true).Keeps mode order := by
  unfold Lane.settle
  split
  · next hflush => exact h.finishBatch_kept hflush (by simp [unsent, hflush])
  · next hflush => exact h.finishBatch_spent hflush (by simp [unsent, hflush])
  · next hflush => exact h.finishBatch_spent hflush (by simp [unsent, hflush])
  · exact h

theorem Keeps.flushOneBatch (h : l.Keeps mode order) (c : LaneChoices) :
    (l.flushOneBatch c true).1.Keeps mode order := by
  unfold Lane.flushOneBatch
  split
  · exact h
  · next taken _ htaken =>
    have hkept := h.takeBatch (congrArg Prod.fst htaken)
    exact (hkept.admitBatch c).settle

theorem Keeps.goAround (h : l.Keeps mode order) (c : LaneChoices) :
    (l.goAround c true).1.Keeps mode order ∧
      ((l.goAround c true).2 = none → (l.goAround c true).1.batch.buffer = []) := by
  unfold Lane.goAround
  split
  · next hnone => exact ⟨h, fun _ => h.batch.fresh hnone⟩
  · refine ⟨h.flushOneBatch c, ?_⟩
    dsimp only
    split
    · intro hsome
      cases hsome
    · next hpeek =>
      intro _
      simpa [OpenBatch.peekBatch] using hpeek

/-! ## Sends -/

theorem batchAppend_content_ne_nil {cursor cursor' : BatchCursor} {message : List UInt8}
    (h : batchAppend cursor message = some cursor') : cursor'.content ≠ [] := by
  have hne := (batchAppend_fits h).1
  unfold batchAppend at h
  split at h
  · split at h
    · cases h
      exact hne
    · cases h
      simp [hne]
  · cases h

theorem Keeps.append (h : l.Keeps mode order) (hassoc : l.assoc ≠ none) (hup : l.established = true)
    (ids : List ℕ) (packet : Datagram) :
    ((l.append ids packet).2 = .appended → (l.append ids packet).1.Keeps mode (order ++ ids)) ∧
      ((l.append ids packet).2 ≠ .appended → (l.append ids packet).1.Keeps mode order) := by
  have hcases := l.batch.appendToBatch_cases packet maxWirePacketSize
  unfold Lane.append
  dsimp only
  generalize l.batch.appendToBatch packet maxWirePacketSize = r at hcases ⊢
  constructor
  · intro happended
    rw [if_pos happended]
    have hopen : l.batch.inFlight = false ∧ r.2.buffer ≠ [] ∧ r.2.inFlight = false := by
      rcases hcases with ⟨hne, -⟩ | ⟨⟨hlt, -, hidle⟩, ⟨-, -, rfl⟩ | ⟨-, cursor, hcursor, rfl⟩⟩
      · exact absurd happended hne
      · refine ⟨hidle, ?_, hidle⟩
        rintro rfl
        simp at hlt
      · exact ⟨hidle, by simp [batchAppend_content_ne_nil hcursor], hidle⟩
    have hidle : l.flush = none := by
      cases hflush : l.flush with
      | none => rfl
      | some f =>
        have hcopy := h.batch.copy f hflush
        rw [hopen.1] at hcopy
        simp at hcopy
    have hsub := h.sub
    have hwhole := h.whole
    simp only [unsent, hidle] at hsub hwhole
    refine ⟨h.kind, ⟨h.line.mode, h.line.waiting, h.line.next, h.line.fresh, h.line.numbered⟩,
      ⟨fun hnone => absurd hnone hassoc, ?_, fun hnil => absurd hnil hopen.2.1,
        fun _ => hopen.2.2, ?_, h.batch.direct, h.batch.parked⟩, ?_, ?_⟩
    · intro hdown
      rw [hup] at hdown
      cases hdown
    · intro f hf
      rw [hidle] at hf
      cases hf
    · simp only [unsent, hidle]
      rw [← List.append_assoc]
      exact hsub.append (List.Sublist.refl ids)
    · intro hmode hopened
      simp only [unsent, hidle]
      rw [← List.append_assoc]
      exact congrArg (· ++ ids) (hwhole hmode hopened)
  · intro hne
    rw [if_neg hne]
    exact h

theorem takeBatch_assoc
    (h : (l.takeBatch bodySlot).1 = some taken) :
    taken.assoc = l.assoc ∧ taken.established = l.established := by
  unfold Lane.takeBatch at h
  split at h
  · cases h
  split at h
  · cases h
  split at h
  · cases h
  · cases h
    exact ⟨rfl, rfl⟩

theorem admitBatch_assoc (h : l.Keeps mode order) (c : LaneChoices) :
    ((l.admitBatch c).1.assoc = none → l.assoc = none) ∧
      (l.admitBatch c).1.established = l.established := by
  unfold Lane.admitBatch
  split
  · have hpassed := preProcessOut_passed h.line h.batch
    exact ⟨(hpassed _ _ _ c).moved.made, (hpassed _ _ _ c).moved.established⟩
  · exact ⟨id, rfl⟩

theorem settle_assoc (l : Lane) (left : Bool) :
    (l.settle left).assoc = l.assoc ∧ (l.settle left).established = l.established := by
  unfold Lane.settle
  split <;> exact ⟨rfl, rfl⟩

theorem flushOneBatch_assoc (h : l.Keeps mode order) (hassoc : l.assoc ≠ none) (c : LaneChoices) :
    (l.flushOneBatch c true).1.assoc ≠ none ∧
      (l.flushOneBatch c true).1.established = l.established := by
  unfold Lane.flushOneBatch
  split
  · exact ⟨hassoc, rfl⟩
  · next taken _ htaken =>
    have htaken' := congrArg Prod.fst htaken
    obtain ⟨hsame, hup⟩ := takeBatch_assoc htaken'
    obtain ⟨hmade, hup'⟩ := admitBatch_assoc (h.takeBatch htaken') c
    obtain ⟨hsettled, hup''⟩ := settle_assoc (taken.admitBatch c).1 true
    constructor
    · rw [hsettled]
      exact fun hnone => hassoc (hsame ▸ hmade hnone)
    · exact hup''.trans (hup'.trans hup)

theorem Keeps.joinBatch (h : l.Keeps mode order) (hassoc : l.assoc ≠ none) (hup : l.established = true)
    (ids : List ℕ) (packet : Datagram) (c : LaneChoices) :
    let r := l.joinBatch ids packet c true
    (r.2 = .ok → r.1.Keeps mode (order ++ ids)) ∧ (r.2 ≠ .ok → r.1.Keeps mode order) := by
  have hstatus : ∀ verdict, SendPath.admitStatus verdict = .ok ↔ verdict = .appended := by
    intro verdict
    cases verdict <;> simp [SendPath.admitStatus]
  unfold Lane.joinBatch
  dsimp only
  split
  · split
    · next hne => exact ⟨fun hok => absurd hok hne, fun _ => h.flushOneBatch c⟩
    · obtain ⟨hassoc', hup'⟩ := flushOneBatch_assoc h hassoc c
      have happend := (h.flushOneBatch c).append hassoc' (hup'.trans hup) ids packet
      simp only [ne_eq, hstatus]
      exact happend
  · have happend := h.append hassoc hup ids packet
    simp only [ne_eq, hstatus]
    exact happend

theorem Keeps.offerToBatch (h : l.Keeps mode order) (ids : List ℕ) (packet : Datagram)
    (authFails : Bool) (c : LaneChoices) :
    let r := l.offerToBatch ids packet authFails c true
    (r.2 = some .ok → r.1.Keeps mode (order ++ ids)) ∧ (r.2 ≠ some .ok → r.1.Keeps mode order) ∧
      (r.2 = none → r.1.batch.buffer = [] ∨ authFails = true ∧ r.1.established = true) := by
  have hgo := h.goAround c
  have hnot : (l.goAround c true).2 ≠ some .ok := by
    unfold Lane.goAround
    split
    · simp
    · dsimp only
      split <;> simp
  unfold Lane.offerToBatch
  split
  · exact ⟨fun hok => absurd hok hnot, fun _ => hgo.1, fun hnone => Or.inl (hgo.2 hnone)⟩
  split
  · next hskip =>
    refine ⟨by simp, fun _ => h, fun _ => ?_⟩
    by_cases hup : l.established = true
    · exact Or.inr ⟨by simpa [hup] using hskip, hup⟩
    · exact Or.inl (h.batch.quiet (by simpa using hup))
  split
  · next hassoc => exact ⟨by simp, fun _ => h, fun _ => Or.inl (h.batch.fresh hassoc)⟩
  · next hready _ flow hassoc =>
    split
    · exact ⟨fun hok => absurd hok hnot, fun _ => hgo.1, fun hnone => Or.inl (hgo.2 hnone)⟩
    · have hup : l.established = true := by
        by_contra hdown
        exact hready (by simp [hdown])
      have hjoin := h.joinBatch (by simp [hassoc]) hup ids packet c
      refine ⟨?_, ?_, by simp⟩
      · intro hok
        exact hjoin.1 (Option.some.inj hok)
      · intro hne
        exact hjoin.2 fun hok => hne (congrArg some hok)

/-- One call of `Send` whose packets the kernel takes: accepted at the end of the line, or
refused without a trace. -/
theorem Keeps.sendPacket (h : l.Keeps mode order) (ids : List ℕ) (packet : Datagram) {a : Answers}
    (hleft : a.left = true) (hsent : a.sentTo = true) :
    ((l.sendPacket ids packet a).2 = .ok → (l.sendPacket ids packet a).1.Keeps mode (order ++ ids)) ∧
      ((l.sendPacket ids packet a).2 ≠ .ok → (l.sendPacket ids packet a).1.Keeps mode order) := by
  obtain ⟨hjoined, hleftout, hahead⟩ := h.offerToBatch ids packet a.authFails a.flush
  unfold Lane.sendPacket
  rw [hleft, hsent]
  dsimp only at hjoined hleftout hahead ⊢
  generalize l.offerToBatch ids packet a.authFails a.flush true = r at hjoined hleftout hahead ⊢
  obtain ⟨offered, answer⟩ := r
  cases answer with
  | some status =>
    refine ⟨fun hok => hjoined (congrArg some hok), fun hne => hleftout fun hsome => ?_⟩
    exact hne (Option.some.inj hsome)
  | none =>
    have hkept : offered.Keeps mode order := hleftout (by simp)
    rcases hahead rfl with hempty | ⟨hauth, hup⟩
    · exact hkept.sendNow hempty ids packet a.authFails a.own
    · -- the missing identity is found missing again
      have hup' : offered.established = true := hup
      have hrefused : offered.sendNow ids packet a.authFails a.own true =
          (offered, .notAuthenticated) := by
        simp [Lane.sendNow, preProcessOut, hauth, hup']
      rw [hrefused]
      exact ⟨by simp, fun _ => hkept⟩

/-! ## Steps of the association alone -/

theorem moved_setAssoc (h : l.LineShape) {flow' : OutAssociation} (hassoc : l.assoc = some flow)
    (hsame : OutAssociation.SameRecord flow' flow) : Moved l { l with assoc := some flow' } := by
  have hshape := h.setAssoc flow' l.waitingIds (hsame.mode.trans (h.mode flow hassoc))
    (by rw [hsame.waiting]; exact h.waiting flow hassoc)
    (by rw [hsame.next]; exact h.next flow hassoc)
  apply moved_of_assoc hshape
  intro hlife other hother
  rw [hassoc] at hother
  cases hother
  rw [← hsame.life]
  exact hlife

theorem Keeps.setAssoc (h : l.Keeps mode order) {flow' : OutAssociation}
    (hassoc : l.assoc = some flow) (hsame : OutAssociation.SameRecord flow' flow) :
    ({ l with assoc := some flow' } : Lane).Keeps mode order :=
  h.same_line (moved_setAssoc h.line hassoc hsame) rfl

theorem Keeps.fail (h : l.Keeps mode order) (hassoc : l.assoc = some flow) :
    (l.fail flow).Keeps mode order := by
  have hshape := h.line.setAssoc (flow.tearDown .failed) [] (h.line.mode flow hassoc) rfl
    (h.line.next flow hassoc)
  have hmoved : Moved l (l.fail flow) :=
    moved_of_assoc hshape fun hlife => by simp [OutAssociation.tearDown] at hlife
  apply h.moved hmoved
  · refine List.Sublist.trans ?_ h.sub
    simp only [Lane.line, Lane.fail, List.flatten_nil, List.append_nil, carried]
    exact (List.sublist_append_left _ _).append (List.Sublist.refl _)
  · intro _ hopen
    have hlife := hopen _ rfl
    simp [OutAssociation.tearDown] at hlife

theorem Keeps.tick (h : l.Keeps mode order) (timers : FlowTimers) (budget : PeerBudget) (now : ℕ)
    (hassoc : l.assoc = some flow) :
    (l.tick timers budget now flow).Keeps mode order := by
  unfold Lane.tick
  dsimp only
  split
  · split
    · exact h.fail hassoc
    · exact h.setAssoc hassoc (flow.retransmitInflight_walks timers budget now .zero).same
  · exact h

theorem Keeps.drain (h : l.Keeps mode order) (budget : PeerBudget)
    (candidateEpoch candidateSlot now : ℕ) (hassoc : l.assoc = some flow) :
    (l.drain budget candidateEpoch candidateSlot now flow).Keeps mode order := by
  have hclaim := flow.claimWaiting_claim budget candidateEpoch candidateSlot now
  unfold Lane.drain
  generalize flow.claimWaiting budget candidateEpoch candidateSlot now = r at hclaim ⊢
  cases hclaim with
  | kept => exact h.setAssoc hassoc (OutAssociation.SameRecord.refl _)
  | stamped head rest hwaiting =>
    have hlen := h.line.waiting flow hassoc
    rw [hwaiting, List.length_cons] at hlen
    obtain ⟨ids, others, hids⟩ := List.exists_cons_of_length_pos (l := l.waitingIds) (by omega)
    rw [hids, List.length_cons] at hlen
    simp only [if_true, hids, List.headD_cons, List.tail_cons]
    have hshape := h.line.stamped flow (({ flow with waiting := rest } : OutAssociation).stamp
      (budget.pacingAllows now head.wireSize).1 (if flow.mode = .unreliable then none else some candidateSlot) head.wireSize true now).1
      (h.line.mode flow hassoc) (h.line.next flow hassoc) rfl ids others
      (by simpa [OutAssociation.stamp] using hlen)
    apply h.same_line (moved_of_assoc hshape ?_)
    · simp [Lane.line, carried, hids]
    · intro hlife other hother
      rw [hassoc] at hother
      cases hother
      exact hlife

/-! ## Runs -/

/-- The calls are numbered in order, and each is entered once. -/
structure Logged (l : Lane) : Prop where
  sorted : l.accepted.Pairwise (· < ·)
  accepted_lt : ∀ m ∈ l.accepted, m < l.calls
  refused_lt : ∀ m ∈ l.refused, m < l.calls
  apart : ∀ m ∈ l.refused, m ∉ l.accepted

structure Inv (mode : FlowMode) (l : Lane) : Prop where
  keeps : l.Keeps mode l.accepted
  logged : l.Logged

/-- The kernel takes every datagram a send or a flush hands it. -/
def KernelTakes (_ : Lane) : Event → Prop
  | .send _ a | .unpark a => a.left = true ∧ a.sentTo = true
  | .settle left => left = true
  | _ => True

instance (l : Lane) : DecidablePred l.KernelTakes
  | .send .. | .unpark .. => inferInstanceAs (Decidable (_ ∧ _))
  | .settle _ => inferInstanceAs (Decidable (_ = true))
  | .establish | .takeBatch _ | .admitBatch _ | .ack .. | .tick .. | .refund _ | .drain .. | .fail =>
    instDecidableTrue

/-- The logs of the calls are those of `l`. -/
structure SameLogs (l l' : Lane) : Prop where
  calls : l'.calls = l.calls
  accepted : l'.accepted = l.accepted
  refused : l'.refused = l.refused

theorem Inv.of_sameLogs (h : l.Inv mode) (hsame : SameLogs l l') (hkeeps : l'.Keeps mode l.accepted) :
    l'.Inv mode where
  keeps := by
    rw [hsame.accepted]
    exact hkeeps
  logged := by
    refine ⟨?_, ?_, ?_, ?_⟩
    · rw [hsame.accepted]
      exact h.logged.sorted
    · rw [hsame.accepted, hsame.calls]
      exact h.logged.accepted_lt
    · rw [hsame.refused, hsame.calls]
      exact h.logged.refused_lt
    · rw [hsame.refused, hsame.accepted]
      exact h.logged.apart

theorem Inv.send (h : l.Inv mode) (packet : Datagram) {a : Answers} (hleft : a.left = true)
    (hsent : a.sentTo = true) : (l.send packet a).Inv mode := by
  obtain ⟨hok, hne⟩ := h.keeps.sendPacket [l.calls] packet hleft hsent
  unfold Lane.send
  dsimp only
  split
  · next hstatus =>
    have hkeeps := hok hstatus
    refine ⟨⟨hkeeps.kind, ⟨hkeeps.line.mode, hkeeps.line.waiting, hkeeps.line.next, hkeeps.line.fresh,
      hkeeps.line.numbered⟩, ⟨hkeeps.batch.fresh, hkeeps.batch.quiet, hkeeps.batch.empty,
      hkeeps.batch.idle, hkeeps.batch.copy, hkeeps.batch.direct, hkeeps.batch.parked⟩, hkeeps.sub,
      hkeeps.whole⟩, ?_, ?_, ?_, ?_⟩
    · rw [List.pairwise_append]
      refine ⟨h.logged.sorted, List.pairwise_singleton _ _, ?_⟩
      intro m hm m' hm'
      rw [List.mem_singleton] at hm'
      rw [hm']
      exact h.logged.accepted_lt m hm
    · intro m hm
      rw [List.mem_append, List.mem_singleton] at hm
      rcases hm with hm | rfl
      · exact Nat.lt_succ_of_lt (h.logged.accepted_lt m hm)
      · exact Nat.lt_succ_self _
    · exact fun m hm => Nat.lt_succ_of_lt (h.logged.refused_lt m hm)
    · intro m hm hmem
      rw [List.mem_append, List.mem_singleton] at hmem
      rcases hmem with hmem | rfl
      · exact h.logged.apart m hm hmem
      · exact absurd (h.logged.refused_lt _ hm) (Nat.lt_irrefl _)
  · next hstatus =>
    have hkeeps := hne hstatus
    refine ⟨⟨hkeeps.kind, ⟨hkeeps.line.mode, hkeeps.line.waiting, hkeeps.line.next, hkeeps.line.fresh,
      hkeeps.line.numbered⟩, ⟨hkeeps.batch.fresh, hkeeps.batch.quiet, hkeeps.batch.empty,
      hkeeps.batch.idle, hkeeps.batch.copy, hkeeps.batch.direct, hkeeps.batch.parked⟩, hkeeps.sub,
      hkeeps.whole⟩, h.logged.sorted, ?_, ?_, ?_⟩
    · exact fun m hm => Nat.lt_succ_of_lt (h.logged.accepted_lt m hm)
    · intro m hm
      rw [List.mem_append, List.mem_singleton] at hm
      rcases hm with hm | rfl
      · exact Nat.lt_succ_of_lt (h.logged.refused_lt m hm)
      · exact Nat.lt_succ_self _
    · intro m hm hmem
      rw [List.mem_append, List.mem_singleton] at hm
      rcases hm with hm | rfl
      · exact h.logged.apart m hm hmem
      · exact absurd (h.logged.accepted_lt _ hmem) (Nat.lt_irrefl _)

theorem takeBatch_sameLogs
    (h : (l.takeBatch bodySlot).1 = some taken) : SameLogs l taken := by
  unfold Lane.takeBatch at h
  split at h
  · cases h
  split at h
  · cases h
  split at h
  · cases h
  · cases h
    exact ⟨rfl, rfl, rfl⟩

theorem Moved.sameLogs (h : Moved l l') : SameLogs l l' := by
  rw [h.rest]
  exact ⟨rfl, rfl, rfl⟩

theorem admitBatch_sameLogs (h : l.Keeps mode order) (c : LaneChoices) :
    SameLogs l (l.admitBatch c).1 := by
  unfold Lane.admitBatch
  split
  · next bytes ids _ =>
    have hlogs := (preProcessOut_passed h.line h.batch ids bytes false c).moved.sameLogs
    exact ⟨hlogs.calls, hlogs.accepted, hlogs.refused⟩
  · exact ⟨rfl, rfl, rfl⟩

theorem settle_sameLogs (l : Lane) (left : Bool) : SameLogs l (l.settle left) := by
  unfold Lane.settle
  split <;> exact ⟨rfl, rfl, rfl⟩

theorem Inv.onAssoc (h : l.Inv mode) {f : OutAssociation → Lane}
    (hf : ∀ flow, l.assoc = some flow → SameLogs l (f flow) ∧ (f flow).Keeps mode l.accepted) :
    (l.onAssoc f).Inv mode := by
  unfold Lane.onAssoc
  split
  · exact h
  · next flow hassoc => exact h.of_sameLogs (hf flow hassoc).1 (hf flow hassoc).2

theorem step_inv (timers : FlowTimers) (h : l.Inv mode) {e : Event} (htakes : l.KernelTakes e) :
    (l.step timers e).Inv mode := by
  have hsame : SameLogs l l := ⟨rfl, rfl, rfl⟩
  cases e with
  | send packet a => exact h.send packet htakes.1 htakes.2
  | unpark a =>
    rw [step, Lane.unpark, h.keeps.batch.parked]
    exact h
  | establish =>
    rw [step]
    refine h.of_sameLogs ⟨rfl, rfl, rfl⟩ ⟨h.keeps.kind, ?_, ?_, h.keeps.sub, h.keeps.whole⟩
    · exact ⟨h.keeps.line.mode, h.keeps.line.waiting, h.keeps.line.next, h.keeps.line.fresh,
        h.keeps.line.numbered⟩
    · exact ⟨h.keeps.batch.fresh, by simp, h.keeps.batch.empty, h.keeps.batch.idle,
        h.keeps.batch.copy, Or.inr rfl, h.keeps.batch.parked⟩
  | takeBatch bodySlot =>
    rw [step]
    cases htaken : (l.takeBatch bodySlot).1 with
    | none => exact h
    | some taken => exact h.of_sameLogs (takeBatch_sameLogs htaken) (h.keeps.takeBatch htaken)
  | admitBatch c => exact h.of_sameLogs (admitBatch_sameLogs h.keeps c) (h.keeps.admitBatch c)
  | settle left =>
    have hleft : left = true := htakes
    subst hleft
    exact h.of_sameLogs (settle_sameLogs l true) h.keeps.settle
  | ack rtt ack now =>
    apply h.onAssoc
    intro flow hassoc
    exact ⟨⟨rfl, rfl, rfl⟩,
      h.keeps.setAssoc hassoc (flow.applyAck_walks timers rtt ack now .zero).same⟩
  | tick budget now =>
    apply h.onAssoc
    intro flow hassoc
    refine ⟨?_, h.keeps.tick timers budget now hassoc⟩
    unfold Lane.tick
    dsimp only
    split_ifs <;> exact ⟨rfl, rfl, rfl⟩
  | refund seqs =>
    apply h.onAssoc
    intro flow hassoc
    exact ⟨⟨rfl, rfl, rfl⟩,
      h.keeps.setAssoc hassoc (flow.refundResendAttempts_walks seqs (fun _ => False) 0).same⟩
  | drain budget candidateEpoch candidateSlot now =>
    rw [step]
    split
    · apply h.onAssoc
      intro flow hassoc
      refine ⟨?_, h.keeps.drain budget candidateEpoch candidateSlot now hassoc⟩
      unfold Lane.drain
      dsimp only
      split <;> exact ⟨rfl, rfl, rfl⟩
    · exact h
  | fail =>
    apply h.onAssoc
    intro flow hassoc
    split
    · exact ⟨hsame, h.keeps⟩
    · exact ⟨⟨rfl, rfl, rfl⟩, h.keeps.fail hassoc⟩

theorem inv_init {established : Bool} (hdirect : mode ≠ .unreliable ∨ established = true) :
    (init mode established).Inv mode where
  keeps := by
    refine ⟨rfl, ⟨by simp [init], by simp [init], by simp [init], fun _ => ⟨rfl, rfl⟩, by simp [init]⟩,
      ⟨fun _ => rfl, fun _ => rfl, fun _ => rfl, fun _ => rfl, by simp [init], hdirect, rfl⟩, ?_, ?_⟩
    · simp [init, Lane.line, carried, unsent]
    · intro _ _
      simp [init, Lane.line, carried, unsent]
  logged := ⟨List.Pairwise.nil, by simp [init], by simp [init], by simp [init]⟩

theorem run_inv (timers : FlowTimers) {established : Bool}
    (hdirect : mode ≠ .unreliable ∨ established = true) {events : List Event}
    (htakes : Along (step timers) KernelTakes (init mode established) events) :
    (run (step timers) (init mode established) events).Inv mode :=
  run_invariant (step timers) (Inv mode) KernelTakes (fun _ _ htakes h => step_inv timers h htakes)
    (inv_init hdirect) htakes

/-! ## Carried once -/

theorem Inv.carried_sublist (h : l.Inv mode) : l.carried.Sublist l.accepted := by
  refine List.Sublist.trans ?_ h.keeps.sub
  rw [Lane.line, List.append_assoc]
  exact List.sublist_append_left _ _

/-- Every message whose `Send` returned `Ok` is in exactly one packet with a sequence, or
still in the queue or the batch for one; a message whose `Send` returned an error is in
none. -/
structure CarriedOnce (l : Lane) : Prop where
  accepted : ∀ m ∈ l.accepted, l.carried.count m = 1 ∨
    l.carried.count m = 0 ∧ m ∈ l.waitingIds.flatten ++ l.unsent
  refused : ∀ m ∈ l.refused, l.carried.count m = 0

theorem Inv.carriedOnce (h : l.Inv mode) (hmode : mode ≠ .unreliable) (hopen : l.Open) :
    l.CarriedOnce where
  accepted := by
    intro m hm
    have hnodup : l.accepted.Nodup := h.logged.sorted.imp fun hlt => Nat.ne_of_lt hlt
    have hone := List.count_eq_one_of_mem hnodup hm
    have hsplit := congrArg (List.count m) (h.keeps.whole hmode hopen)
    rw [hone, Lane.line, List.append_assoc, List.count_append] at hsplit
    rcases Nat.eq_zero_or_pos (l.carried.count m) with hzero | hpos
    · refine Or.inr ⟨hzero, ?_⟩
      rw [← List.count_pos_iff]
      omega
    · exact Or.inl (by omega)
  refused := by
    intro m hm
    rw [List.count_eq_zero]
    exact fun hcarried => h.logged.apart m hm (h.carried_sublist.subset hcarried)

/-- Along every run in which the kernel takes what a send or a flush hands it, as long as
the association is open. -/
theorem reliable_message_carried_once (timers : FlowTimers) (mode : FlowMode) (established : Bool)
    (hmode : isReliable mode = true) (events : List Event)
    (htakes : Along (step timers) KernelTakes (init mode established) events)
    (hopen : (run (step timers) (init mode established) events).Open) :
    (run (step timers) (init mode established) events).CarriedOnce := by
  have hreliable : mode ≠ .unreliable := by simpa [isReliable] using hmode
  exact (run_inv timers (Or.inl hreliable) htakes).carriedOnce hreliable hopen

/-- A first message that opens the association and a second one that is batched: both have
their sequence once the batch is flushed. -/
theorem reliable_message_carried_once_flushed :
    let timers : FlowTimers := ⟨100000, 25000, 30000000⟩
    let budget : PeerBudget := ⟨⟨0, 0, 0, 0, 0⟩, 100000, 0, 0, 0, 0, 100000, 0⟩
    let params : OutAssocParams := ⟨0, ⟨[1], 0, 9⟩, ⟨[1]⟩, 7, .reliableOrdered, 1, 4⟩
    let c : LaneChoices := ⟨3, true, true, true, true, params, 0, budget, 5⟩
    let a : Answers := ⟨false, c, c, true, true⟩
    let packet : Datagram :=
      (buildPacket .encrypted false (some ⟨7, .reliableOrdered, 0, .whole⟩) [1, 2, 3]).getD []
    let events : List Event :=
      [.send packet a, .send packet a, .takeBatch true, .admitBatch c, .settle true]
    let l := run (step timers) (init .reliableOrdered true) events
    Along (step timers) KernelTakes (init .reliableOrdered true) events ∧ l.CarriedOnce ∧
      l.accepted = [0, 1] ∧ l.stamps = [(1, [0]), (2, [1])] := by
  intro timers budget params c a packet events l
  have htakes : Along (step timers) KernelTakes (init .reliableOrdered true) events := by
    decide +kernel
  have hlife : l.assoc.map OutAssociation.life = some .opened := by
    decide +kernel
  have hopen : l.Open := by
    intro flow hflow
    rw [hflow] at hlife
    exact Option.some.inj hlife
  exact ⟨htakes, reliable_message_carried_once timers .reliableOrdered true rfl events htakes hopen,
    by decide +kernel⟩

/-- The kernel refuses a datagram after its sequence was handed out.  A batch is kept for a
later flush all the same, which gives its message a second sequence; a single packet is
reported as an error, and its message carried by the retransmit pass. -/
theorem refused_datagram_keeps_its_sequence :
    let timers : FlowTimers := ⟨100000, 25000, 30000000⟩
    let budget : PeerBudget := ⟨⟨0, 0, 0, 0, 0⟩, 100000, 0, 0, 0, 0, 100000, 0⟩
    let params : OutAssocParams := ⟨0, ⟨[1], 0, 9⟩, ⟨[1]⟩, 7, .reliableOrdered, 1, 4⟩
    let c : LaneChoices := ⟨3, true, true, true, true, params, 0, budget, 5⟩
    let packet : Datagram :=
      (buildPacket .encrypted false (some ⟨7, .reliableOrdered, 0, .whole⟩) [1, 2, 3]).getD []
    let twice := run (step timers) (init .reliableOrdered true)
      [.send packet ⟨false, c, c, true, true⟩, .send packet ⟨false, c, c, true, true⟩,
       .takeBatch true, .admitBatch c, .settle false, .takeBatch true, .admitBatch c, .settle true]
    let lost := run (step timers) (init .reliableOrdered true)
      [.send packet ⟨false, c, c, true, false⟩]
    (twice.accepted = [0, 1] ∧ twice.stamps = [(1, [0]), (2, [1]), (3, [1])] ∧
      twice.assoc.map OutAssociation.life = some .opened) ∧
    lost.refused = [0] ∧ lost.stamps = [(1, [0])] := by
  decide +kernel

end Lane

end BcpFlux.Socket
