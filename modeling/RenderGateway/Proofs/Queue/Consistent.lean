import RenderGateway.Proofs.Job.Transition
import RenderGateway.Proofs.Queue.Step

/-!
# The places of the queue agree with its table

The status of a record tells where its id stands: in the line, as the current
job or among the finished ones. `Consistent` says so of every id, together with
the plans that are kept for the line. Each change of the queue concerns one id
and leaves all others alike, so that only that id has to be looked at again.
-/

namespace RenderGateway.Queue

/-- A record and the place of its id. A job that does not wait has position 0. -/
structure Recorded (q : Queue) (id : String) (j : Job) : Prop where
  id_eq : j.id = id
  queued_iff : j.status = .queued ↔ id ∈ q.pending
  running_iff : j.status = .running ↔ q.current = some id
  terminal_iff : j.isTerminal = true ↔ id ∈ q.finished
  position_eq_zero : id ∉ q.pending → j.queuePosition = 0

structure Absent (q : Queue) (id : String) : Prop where
  not_pending : id ∉ q.pending
  not_current : q.current ≠ some id
  not_finished : id ∉ q.finished

/-- What the table has under an id agrees with the place of the id. -/
def Placed (q : Queue) (id : String) : Option Job → Prop
  | none => q.Absent id
  | some j => q.Recorded id j

structure Consistent (q : Queue) : Prop where
  placed : ∀ id, q.Placed id (q.jobs.find? id)
  planned : ∀ id, (q.plans.find? id).isSome = true ↔ id ∈ q.pending
  pending_nodup : q.pending.Nodup
  finished_nodup : q.finished.Nodup

/-- The states agree on everything but one id. -/
structure AlikeExcept (id : String) (q r : Queue) : Prop where
  jobs : ∀ other ≠ id, r.jobs.find? other = q.jobs.find? other
  plans : ∀ other ≠ id, r.plans.find? other = q.plans.find? other
  pending : ∀ other ≠ id, other ∈ r.pending ↔ other ∈ q.pending
  current : ∀ other ≠ id, r.current = some other ↔ q.current = some other
  finished : ∀ other ≠ id, other ∈ r.finished ↔ other ∈ q.finished

variable {q r : Queue} {id : String}

theorem Placed.congr {found : Option Job} (h : q.Placed id found)
    (hp : id ∈ r.pending ↔ id ∈ q.pending) (hc : r.current = some id ↔ q.current = some id)
    (hf : id ∈ r.finished ↔ id ∈ q.finished) : r.Placed id found := by
  cases found with
  | none => exact ⟨mt hp.1 h.not_pending, mt hc.1 h.not_current, mt hf.1 h.not_finished⟩
  | some j =>
    exact ⟨h.id_eq, h.queued_iff.trans hp.symm, h.running_iff.trans hc.symm,
      h.terminal_iff.trans hf.symm, fun hn => h.position_eq_zero (mt hp.2 hn)⟩

namespace Consistent

theorem of_alikeExcept (h : q.Consistent) (id : String) (alike : AlikeExcept id q r)
    (placed : r.Placed id (r.jobs.find? id))
    (planned : (r.plans.find? id).isSome = true ↔ id ∈ r.pending)
    (pending_nodup : r.pending.Nodup) (finished_nodup : r.finished.Nodup) : r.Consistent where
  placed other := by
    by_cases ho : other = id
    · exact ho ▸ placed
    · rw [alike.jobs other ho]
      exact (h.placed other).congr (alike.pending other ho) (alike.current other ho)
        (alike.finished other ho)
  planned other := by
    by_cases ho : other = id
    · exact ho ▸ planned
    · rw [alike.plans other ho, alike.pending other ho]
      exact h.planned other
  pending_nodup := pending_nodup
  finished_nodup := finished_nodup

/-- Nothing is said of the waiting place. -/
theorem setWaiting (h : q.Consistent) (w : Option Waiting) :
    ({ q with waiting := w } : Queue).Consistent where
  placed id := (h.placed id).congr Iff.rfl Iff.rfl Iff.rfl
  planned := h.planned
  pending_nodup := h.pending_nodup
  finished_nodup := h.finished_nodup

theorem empty (retained : Nat) : (Queue.empty retained).Consistent where
  placed _ := ⟨List.not_mem_nil, nofun, List.not_mem_nil⟩
  planned _ := by simp [Queue.empty, Table.find?_nil]
  pending_nodup := List.nodup_nil
  finished_nodup := List.nodup_nil

theorem recorded (h : q.Consistent) {j : Job} (hj : q.jobs.find? id = some j) :
    q.Recorded id j := by
  have hp := h.placed id
  rwa [hj] at hp

theorem absent (h : q.Consistent) (hn : q.jobs.find? id = none) : q.Absent id := by
  have hp := h.placed id
  rwa [hn] at hp

/-- What stands in one of the places has a record. -/
theorem exists_recorded (h : q.Consistent)
    (hid : id ∈ q.pending ∨ q.current = some id ∨ id ∈ q.finished) :
    ∃ j, q.jobs.find? id = some j ∧ q.Recorded id j := by
  cases hj : q.jobs.find? id with
  | some j => exact ⟨j, rfl, h.recorded hj⟩
  | none =>
    obtain ⟨hp, hc, hf⟩ := h.absent hj
    rcases hid with hid | hid | hid <;> contradiction

/-- A job of the line has a record that says so, and a plan. -/
theorem exists_of_mem_pending (h : q.Consistent) (hp : id ∈ q.pending) :
    ∃ j plan outputName, q.jobs.find? id = some j ∧ j.status = .queued ∧
      q.plans.find? id = some (plan, outputName) := by
  obtain ⟨j, hj, hr⟩ := h.exists_recorded (.inl hp)
  obtain ⟨⟨plan, outputName⟩, hplan⟩ := Option.isSome_iff_exists.1 ((h.planned id).2 hp)
  exact ⟨j, plan, outputName, hj, hr.queued_iff.2 hp, hplan⟩

theorem current_ne_of_mem_pending (h : q.Consistent) (hp : id ∈ q.pending) :
    q.current ≠ some id := by
  intro hc
  obtain ⟨j, _, hr⟩ := h.exists_recorded (.inl hp)
  cases (hr.queued_iff.2 hp).symm.trans (hr.running_iff.2 hc)

theorem not_mem_finished_of_mem_pending (h : q.Consistent) (hp : id ∈ q.pending) :
    id ∉ q.finished := by
  intro hf
  obtain ⟨j, _, hr⟩ := h.exists_recorded (.inl hp)
  have ht := hr.terminal_iff.2 hf
  rw [Job.isTerminal, hr.queued_iff.2 hp] at ht
  cases ht

theorem not_mem_finished_of_current (h : q.Consistent) (hc : q.current = some id) :
    id ∉ q.finished := by
  intro hf
  obtain ⟨j, _, hr⟩ := h.exists_recorded (.inr (.inl hc))
  have ht := hr.terminal_iff.2 hf
  rw [Job.isTerminal, hr.running_iff.2 hc] at ht
  cases ht

end Consistent

/-! ### Positions -/

theorem find?_reposition_from (pending : List String) (position : Nat → UInt64)
    (hn : pending.Nodup) (start : Nat) (t : Table Job) (id : String) :
    ((pending.zipIdx start).foldl (fun jobs entry =>
        jobs.modify entry.1 fun j => { j with queuePosition := position entry.2 }) t).find? id =
      (t.find? id).map fun j =>
        if id ∈ pending then { j with queuePosition := position (start + pending.idxOf id) }
        else j := by
  induction pending generalizing start t with
  | nil => simp
  | cons key rest ih =>
    obtain ⟨hkey, hrest⟩ := List.nodup_cons.1 hn
    rw [List.zipIdx_cons, List.foldl_cons, ih hrest, Table.find?_modify]
    by_cases h : key = id
    · subst h
      cases t.find? key <;> simp [hkey]
    · have hne : (key == id) = false := by simpa using h
      simp only [if_neg h, List.mem_cons, Ne.symm h, false_or, List.idxOf_cons, hne, cond_false]
      simp only [Nat.add_assoc, Nat.add_comm 1]

/-- A repositioning gives every job of the line its position and nothing else. -/
theorem find?_reposition (q : Queue) (hn : q.pending.Nodup) (id : String) :
    q.reposition.jobs.find? id = (q.jobs.find? id).map fun j =>
      if id ∈ q.pending then { j with queuePosition := q.positionOf (q.pending.idxOf id) }
      else j := by
  have h := find?_reposition_from q.pending q.positionOf hn 0 q.jobs id
  rw [Nat.zero_add] at h
  exact h

/-- Every job of the line has the position of its place there. -/
def Positioned (q : Queue) : Prop :=
  ∀ id ∈ q.pending, ∀ j, q.jobs.find? id = some j →
    j.queuePosition = q.positionOf (q.pending.idxOf id)

theorem positioned_reposition (q : Queue) (hn : q.pending.Nodup) : q.reposition.Positioned := by
  intro id hid j hj
  change id ∈ q.pending at hid
  rw [find?_reposition q hn, Option.map_eq_some_iff] at hj
  obtain ⟨k, _, rfl⟩ := hj
  rw [if_pos hid]
  rfl

theorem Consistent.reposition (h : q.Consistent) : q.reposition.Consistent where
  placed id := by
    rw [find?_reposition q h.pending_nodup]
    cases hj : q.jobs.find? id with
    | none =>
      obtain ⟨hp, hc, hf⟩ := h.absent hj
      exact ⟨hp, hc, hf⟩
    | some j =>
      have hr := h.recorded hj
      by_cases hp : id ∈ q.pending
      · rw [Option.map_some, if_pos hp]
        exact ⟨hr.id_eq, hr.queued_iff, hr.running_iff, hr.terminal_iff, fun hn => absurd hp hn⟩
      · rw [Option.map_some, if_neg hp]
        exact ⟨hr.id_eq, hr.queued_iff, hr.running_iff, hr.terminal_iff, hr.position_eq_zero⟩
  planned := h.planned
  pending_nodup := h.pending_nodup
  finished_nodup := h.finished_nodup

end RenderGateway.Queue
