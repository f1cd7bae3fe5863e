import Mathlib.Data.List.Nodup
import RenderGateway.Proofs.Queue.Dispatch

/-!
# Every step keeps the queue settled

A command that reaches the dispatcher hands it a prepared state, and the
dispatcher leaves a settled one. The remaining commands keep a settled state
settled.
-/

namespace RenderGateway.Queue

variable {q : Queue}

/-! ### A submission joins the line -/

theorem alikeExcept_admitted (q : Queue) (s : Submission) (now : Instant) :
    AlikeExcept s.id q (q.admitted s now) where
  jobs other ho := by simp [Queue.admitted, Table.find?_insert, ho.symm]
  plans other ho := by simp [Queue.admitted, Table.find?_insert, ho.symm]
  pending other ho := by simp [Queue.admitted, ho]
  current _ _ := Iff.rfl
  finished _ _ := Iff.rfl

theorem Consistent.admitted (h : q.Consistent) {s : Submission}
    (fresh : q.jobs.find? s.id = none) (now : Instant) : (q.admitted s now).Consistent := by
  obtain ⟨hp, hc, hf⟩ := h.absent fresh
  apply h.of_alikeExcept s.id (alikeExcept_admitted q s now)
  · rw [Queue.admitted, Table.find?_insert, if_pos rfl]
    exact {
      id_eq := rfl
      queued_iff := by simp [Job.queued]
      running_iff := by simp [Job.queued, hc]
      terminal_iff := by simp [Job.queued, Job.isTerminal, JobStatus.isTerminal, hf]
      position_eq_zero := fun hn => absurd (List.mem_append_right _ List.mem_cons_self) hn }
  · simp [Queue.admitted, Table.find?_insert]
  · exact List.nodup_append.2 ⟨h.pending_nodup, List.nodup_singleton _,
      fun a ha b hb hab => hp (List.mem_singleton.1 hb ▸ hab ▸ ha)⟩
  · exact h.finished_nodup

theorem Positioned.admitted (h : q.Positioned) {s : Submission} (hs : s.id ∉ q.pending)
    (now : Instant) : (q.admitted s now).Positioned := by
  intro id hid j hj
  change (Table.insert s.id _ q.jobs).find? id = some j at hj
  change j.queuePosition = q.positionOf ((q.pending ++ [s.id]).idxOf id)
  rw [Table.find?_insert] at hj
  by_cases he : s.id = id
  · rw [if_pos he] at hj
    subst he
    cases hj
    rw [List.idxOf_append, if_neg hs]
    simp [Job.queued]
  · rw [if_neg he] at hj
    have hmem : id ∈ q.pending := by simpa [Queue.admitted, Ne.symm he] using hid
    rw [List.idxOf_append, if_pos hmem]
    exact h id hmem j hj

theorem Settled.admitted (h : q.Settled) {s : Submission} (fresh : q.jobs.find? s.id = none)
    (now : Instant) : (q.admitted s now).Prepared where
  toConsistent := h.toConsistent.admitted fresh now
  positioned := h.positioned.admitted (h.absent fresh).not_pending now
  finished_length_le := h.finished_length_le
  current_of_waiting := h.current_of_waiting

theorem Settled.awaited (h : q.Settled) (hc : q.current = none) (worker : Nat) :
    (q.awaited worker).Prepared where
  toConsistent := h.toConsistent.setWaiting _
  positioned := h.positioned
  finished_length_le := h.finished_length_le
  current_of_waiting _ := hc

/-! ### A job ends -/

theorem alikeExcept_closed (q : Queue) (id : String) (job ended : Job) :
    AlikeExcept id q (q.closed id job ended) where
  jobs other ho := by simp [Queue.closed, Table.find?_insert, ho.symm]
  plans other ho := by
    by_cases hs : job.status = .queued <;> simp [Queue.closed, hs, Table.find?_erase, ho.symm]
  pending other ho := by
    by_cases hs : job.status = .queued <;> simp [Queue.closed, hs, ho]
  current other ho := by
    by_cases hs : q.current = some id <;> simp [Queue.closed, hs, ho.symm]
  finished other ho := by simp [Queue.closed, ho]

/-- A job that has ended neither waits nor runs. -/
theorem Consistent.left_of_closed (h : q.Consistent) {id : String} {job : Job}
    (found : q.jobs.find? id = some job) (ended : Job) :
    id ∉ (q.closed id job ended).pending ∧ (q.closed id job ended).current ≠ some id := by
  constructor
  · by_cases hs : job.status = .queued
    · simp [Queue.closed, hs]
    · simpa [Queue.closed, hs] using mt (h.recorded found).queued_iff.2 hs
  · by_cases hs : q.current = some id <;> simp [Queue.closed, hs]

theorem Consistent.closed (h : q.Consistent) {id : String} {job ended : Job}
    (found : q.jobs.find? id = some job) (hend : job.Ended ended) :
    (q.closed id job ended).Consistent := by
  have hr := h.recorded found
  have hnot : job.isTerminal ≠ true := by
    rcases hend.alive with hs | hs <;> simp [Job.isTerminal, hs, JobStatus.isTerminal]
  have hf : id ∉ q.finished := mt hr.terminal_iff.2 hnot
  obtain ⟨hp, hc⟩ := h.left_of_closed found ended
  have hplan : ((q.closed id job ended).plans.find? id).isSome = false := by
    by_cases hs : job.status = .queued
    · simp [Queue.closed, hs, Table.find?_erase]
    · simpa [Queue.closed, hs] using mt (h.planned id).1 (mt hr.queued_iff.2 hs)
  have hstatus : ended.status ≠ .queued ∧ ended.status ≠ .running := by
    have ht := hend.terminal
    constructor <;> intro hs <;> simp [Job.isTerminal, hs, JobStatus.isTerminal] at ht
  apply h.of_alikeExcept id (alikeExcept_closed q id job ended)
  · change (q.closed id job ended).Placed id ((Table.insert id ended q.jobs).find? id)
    rw [Table.find?_insert, if_pos rfl]
    exact {
      id_eq := hend.id_eq.trans hr.id_eq
      queued_iff := ⟨fun hs => absurd hs hstatus.1, fun hm => absurd hm hp⟩
      running_iff := ⟨fun hs => absurd hs hstatus.2, fun hm => absurd hm hc⟩
      terminal_iff := ⟨fun _ => List.mem_append_right _ List.mem_cons_self, fun _ => hend.terminal⟩
      position_eq_zero := fun _ => by
        rcases hend.position with hz | ⟨hs, hz⟩
        · exact hz
        · have hn : id ∉ q.pending := fun hm => by cases hs.symm.trans (hr.queued_iff.2 hm)
          rw [hz, hr.position_eq_zero hn] }
  · simp [hplan, hp]
  · change (if job.status = .queued then q.pending.filter (· ≠ id) else q.pending).Nodup
    split
    · exact h.pending_nodup.filter _
    · exact h.pending_nodup
  · exact List.nodup_append.2 ⟨h.finished_nodup, List.nodup_singleton _,
      fun a ha b hb hab => hf (List.mem_singleton.1 hb ▸ hab ▸ ha)⟩

theorem Consistent.evict (h : q.Consistent) : q.evict.Consistent where
  placed id := by
    let excess := q.finished.length - q.retained
    have hsplit : id ∈ q.finished ↔ id ∈ q.finished.take excess ∨ id ∈ q.finished.drop excess := by
      rw [← List.mem_append, List.take_append_drop]
    have hdisjoint : id ∈ q.finished.take excess → id ∉ q.finished.drop excess := by
      have hn := h.finished_nodup
      rw [← List.take_append_drop excess q.finished] at hn
      exact fun ht hd => (List.nodup_append.1 hn).2.2 id ht id hd rfl
    change Placed _ id (((q.finished.take excess).foldl Table.erase q.jobs).find? id)
    rw [Table.find?_foldl_erase]
    by_cases ht : id ∈ q.finished.take excess
    · have hf : id ∈ q.finished := hsplit.2 (.inl ht)
      rw [if_pos ht]
      exact ⟨fun hp => h.not_mem_finished_of_mem_pending hp hf,
        fun hc => h.not_mem_finished_of_current hc hf, hdisjoint ht⟩
    · rw [if_neg ht]
      exact (h.placed id).congr Iff.rfl Iff.rfl (by rw [hsplit]; simp [ht, Queue.evict, excess])
  planned := h.planned
  pending_nodup := h.pending_nodup
  finished_nodup := h.finished_nodup.sublist (List.drop_sublist _ _)

theorem evict_finished_length_le (q : Queue) : q.evict.finished.length ≤ q.retained := by
  simp only [evict, List.length_drop]
  omega

theorem Settled.closed (h : q.Settled) {id : String} {job ended : Job}
    (found : q.jobs.find? id = some job) (hend : job.Ended ended) :
    (q.closed id job ended).evict.reposition.Prepared where
  toConsistent := (h.toConsistent.closed found hend).evict.reposition
  positioned := positioned_reposition _ (h.toConsistent.closed found hend).evict.pending_nodup
  finished_length_le := evict_finished_length_le _
  current_of_waiting hw := by
    have hc : q.current = none := h.current_of_waiting hw
    change (if q.current = some id then none else q.current) = none
    simp [hc]

/-! ### The dispatcher -/

/-- The head of the line is running, and no other job has a new position yet. -/
theorem alikeExcept_served {s : Submission} {rest : List String} (current : q.current = none)
    (pending : q.pending = s.id :: rest) (started : Job) :
    AlikeExcept s.id q { q with
      jobs := Table.insert s.id started q.jobs
      plans := q.plans.erase s.id
      pending := rest
      current := some s.id
      waiting := none } where
  jobs other ho := by simp [Table.find?_insert, ho.symm]
  plans other ho := by simp [Table.find?_erase, ho.symm]
  pending other ho := by simp [pending, ho]
  current other ho := by simp [current, ho.symm]
  finished _ _ := Iff.rfl

theorem Consistent.served (h : q.Consistent) {s : Submission} {rest : List String} {job : Job}
    (current : q.current = none) (pending : q.pending = s.id :: rest)
    (found : q.jobs.find? s.id = some job) (now : Instant) :
    (q.served s rest (job.started now)).Consistent := by
  have hr := h.recorded found
  have hn := h.pending_nodup
  rw [pending, List.nodup_cons] at hn
  have hmem : s.id ∈ q.pending := by simp [pending]
  have hf := h.not_mem_finished_of_mem_pending hmem
  apply Consistent.reposition
  apply h.of_alikeExcept s.id (alikeExcept_served current pending _)
  · rw [Table.find?_insert, if_pos rfl]
    exact {
      id_eq := hr.id_eq
      queued_iff := by simp [Job.started, hn.1]
      running_iff := by simp [Job.started]
      terminal_iff := by simp [Job.started, Job.isTerminal, JobStatus.isTerminal, hf]
      position_eq_zero := fun _ => rfl }
  · simp [Table.find?_erase, hn.1]
  · exact hn.2
  · exact h.finished_nodup

theorem Consistent.putBack (h : q.Consistent) {s : Submission} (current : q.current = some s.id)
    (now : Instant) : (q.putBack s now).Consistent := by
  have hp : s.id ∉ q.pending := fun hp => h.current_ne_of_mem_pending hp current
  have hf := h.not_mem_finished_of_current current
  apply Consistent.reposition
  apply h.of_alikeExcept s.id
  · exact {
      jobs := fun other ho => by simp [Table.find?_insert, ho.symm]
      plans := fun other ho => by simp [Table.find?_insert, ho.symm]
      pending := fun other ho => by simp [ho]
      current := fun other ho => by simp [current, ho.symm]
      finished := fun _ _ => Iff.rfl }
  · rw [Table.find?_insert, if_pos rfl]
    exact {
      id_eq := rfl
      queued_iff := by simp [Job.queued]
      running_iff := by simp [Job.queued]
      terminal_iff := by simp [Job.queued, Job.isTerminal, JobStatus.isTerminal, hf]
      position_eq_zero := fun _ => rfl }
  · simp [Table.find?_insert]
  · exact List.nodup_cons.2 ⟨hp, h.pending_nodup⟩
  · exact h.finished_nodup

theorem Prepared.settled_of_dispatched (h : q.Prepared) {now : Instant} {r : Queue}
    {notices : List Notice} (hd : Dispatched q now r notices) : r.Settled := by
  cases hd with
  | idle hw => exact ⟨h, hw⟩
  | left =>
    exact {
      toConsistent := h.toConsistent.setWaiting none
      positioned := h.positioned
      finished_length_le := h.finished_length_le
      current_of_waiting := nofun
      pending_of_waiting := nofun }
  | delivered current pending found queued planned =>
    have hs := h.toConsistent.served current pending found now
    exact {
      toConsistent := hs
      positioned := positioned_reposition _ hs.pending_nodup
      finished_length_le := h.finished_length_le
      current_of_waiting := nofun
      pending_of_waiting := nofun }
  | returned current pending found queued planned =>
    have hs := (h.toConsistent.served current pending found now).putBack rfl now
    exact {
      toConsistent := hs
      positioned := positioned_reposition _ hs.pending_nodup
      finished_length_le := h.finished_length_le
      current_of_waiting := nofun
      pending_of_waiting := nofun }

/-! ### Steps -/

theorem Settled.empty (retained : Nat) : (Queue.empty retained).Settled where
  toConsistent := Consistent.empty retained
  positioned := nofun
  finished_length_le := Nat.zero_le _
  current_of_waiting := nofun
  pending_of_waiting := nofun

theorem Settled.leave (h : q.Settled) (worker : Nat) : (q.leave worker).Settled := by
  unfold Queue.leave
  split
  · next w hw =>
    split
    · exact {
        toConsistent := h.toConsistent.setWaiting _
        positioned := h.positioned
        finished_length_le := h.finished_length_le
        current_of_waiting := fun _ => h.current_of_waiting (by simp [hw])
        pending_of_waiting := fun _ => h.pending_of_waiting (by simp [hw]) }
    · exact h
  · exact h

theorem find?_update (q : Queue) (id : String) (u : JobUpdate) (other : String) :
    (q.update id u).jobs.find? other =
      if id = other then (q.jobs.find? other).map fun j => j.updated u else q.jobs.find? other :=
  Table.find?_modify q.jobs id other fun j => j.updated u

/-- A running job goes on running through its updates. -/
theorem running_updates {q : Queue} {id : String} {job : Job} (hj : q.jobs.find? id = some job)
    (running : job.status = .running) (us : List JobUpdate) :
    ∃ j, (us.foldl (fun q u => q.update id u) q).jobs.find? id = some j ∧
      j.status = .running := by
  induction us generalizing q job with
  | nil => exact ⟨job, hj, running⟩
  | cons u us ih =>
    have hfirst : (q.update id u).jobs.find? id = some (job.updated u) := by
      rw [find?_update, if_pos rfl, hj]
      rfl
    exact ih hfirst ((job.updated_frame u).2.1.trans running)

theorem alikeExcept_update (q : Queue) (id : String) (u : JobUpdate) :
    AlikeExcept id q (q.update id u) where
  jobs other ho := by rw [find?_update, if_neg ho.symm]
  plans _ _ := rfl
  pending _ _ := Iff.rfl
  current _ _ := Iff.rfl
  finished _ _ := Iff.rfl

theorem Consistent.update (h : q.Consistent) (id : String) (u : JobUpdate) :
    (q.update id u).Consistent := by
  apply h.of_alikeExcept id (alikeExcept_update q id u)
  · rw [find?_update, if_pos rfl]
    cases hj : q.jobs.find? id with
    | none =>
      obtain ⟨hp, hc, hf⟩ := h.absent hj
      exact ⟨hp, hc, hf⟩
    | some j =>
      have hr := h.recorded hj
      obtain ⟨hid, hs, hq⟩ := j.updated_frame u
      exact {
        id_eq := hid.trans hr.id_eq
        queued_iff := by rw [hs]; exact hr.queued_iff
        running_iff := by rw [hs]; exact hr.running_iff
        terminal_iff := by rw [Job.isTerminal, hs]; exact hr.terminal_iff
        position_eq_zero := fun hn => hq.trans (hr.position_eq_zero hn) }
  · exact h.planned id
  · exact h.pending_nodup
  · exact h.finished_nodup

theorem Settled.update (h : q.Settled) (id : String) (u : JobUpdate) : (q.update id u).Settled where
  toConsistent := h.toConsistent.update id u
  positioned := by
    intro other ho j hj
    rw [find?_update] at hj
    split at hj
    · obtain ⟨k, hk, rfl⟩ := Option.map_eq_some_iff.1 hj
      exact (k.updated_frame u).2.2.trans (h.positioned other ho k hk)
    · exact h.positioned other ho j hj
  finished_length_le := h.finished_length_le
  current_of_waiting := h.current_of_waiting
  pending_of_waiting := h.pending_of_waiting

theorem Settled.kept (h : q.Settled) (command : Command) : (q.kept command).Settled := by
  cases command with
  | leave worker => exact h.leave worker
  | update id u => exact h.update id u
  | enqueue _ | claim _ | finish _ _ => exact h

/-- The job of a submission is new to the queue. -/
def Fresh (q : Queue) : Command → Prop
  | .enqueue s => q.jobs.find? s.id = none
  | _ => True

theorem Settled.handed (h : q.Settled) {command : Command} (fresh : q.Fresh command)
    {now : Instant} {m : Queue} (hm : q.handed command now = some m) : m.Prepared := by
  cases handed_cases hm with
  | admitted s => exact h.admitted fresh now
  | awaited worker current => exact h.awaited current worker
  | closed found ok => exact h.closed found (Job.ended_of_finish ok)

theorem Settled.step (h : q.Settled) {command : Command} (fresh : q.Fresh command) (now : Instant)
    (reached : Bool) : (q.step command now reached).1.Settled := by
  cases hm : q.handed command now with
  | none =>
    rw [(step_of_not_handed hm reached).1]
    exact h.kept command
  | some m =>
    rw [(step_of_handed hm reached).1]
    have hp := h.handed fresh hm
    exact hp.settled_of_dispatched (hp.dispatched now reached)

end RenderGateway.Queue
