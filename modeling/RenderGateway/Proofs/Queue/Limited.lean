import RenderGateway.Proofs.Job.Later
import RenderGateway.Proofs.Queue.History

/-!
# Progress before the end

A job comes to the end of its progress only with what it has made. The records of a queue change one
at a time, and this is so of each record that a change leaves, whatever the others are. So it is so
of every record that a queue ever holds.
-/

namespace RenderGateway

namespace Table

variable {α : Type} {P : α → Prop} {t : Table α}

/-- What is said of a value is so of every value of the table. -/
def Holds (P : α → Prop) (t : Table α) : Prop := ∀ key v, t.find? key = some v → P v

theorem holds_nil (P : α → Prop) : Holds P [] := by
  intro key v hv
  rw [find?_nil] at hv
  cases hv

theorem Holds.insert (h : Holds P t) (key : String) {v : α} (hv : P v) :
    Holds P (Table.insert key v t) := by
  intro other w hw
  rw [find?_insert] at hw
  split at hw
  · cases hw
    exact hv
  · exact h other w hw

theorem Holds.modify (h : Holds P t) (key : String) {f : α → α} (hf : ∀ v, P v → P (f v)) :
    Holds P (t.modify key f) := by
  intro other w hw
  rw [find?_modify] at hw
  split at hw
  · obtain ⟨v, hv, rfl⟩ := Option.map_eq_some_iff.1 hw
    exact hf v (h other v hv)
  · exact h other w hw

theorem Holds.foldl_erase (h : Holds P t) (keys : List String) :
    Holds P (keys.foldl Table.erase t) := by
  intro key v hv
  rw [find?_foldl_erase] at hv
  split at hv
  · cases hv
  · exact h key v hv

end Table

namespace Job

/-- The progress of a job that has made nothing yet. -/
def Limited (j : Job) : Prop :=
  j.status = .done ∨ j.status = .partialSuccess ∨ j.progress ≤ 99

variable {j k : Job}

theorem limited_queued (id : String) (plan : Plan) (position : UInt64) (now : Instant) :
    (queued id plan position now).Limited :=
    .inr (.inr (UInt8.zero_le : (0 : UInt8) ≤ 99))

theorem Limited.progress_le_of_alive (h : j.Limited)
    (alive : j.status = .queued ∨ j.status = .running) : j.progress ≤ 99 := by
  rcases h with hdone | hpartial | hle
  · rcases alive with hs | hs <;> cases hs.symm.trans hdone
  · rcases alive with hs | hs <;> cases hs.symm.trans hpartial
  · exact hle

theorem Limited.start (h : j.Limited) {now : Instant} (ok : j.start now = .ok k) : k.Limited := by
  obtain ⟨hc, rfl⟩ := become_then_ok ok
  exact .inr (.inr (h.progress_le_of_alive (.inl (queued_of_canBecome_running hc))))

theorem Limited.updated (h : j.Limited) (u : JobUpdate) : (j.updated u).Limited := by
  by_cases hs : j.status = .running
  · have hle := h.progress_le_of_alive (.inr hs)
    rw [updated_of_running hs]
    cases u with
    | route | logs => exact .inr (.inr hle)
    | progress percent => exact .inr (.inr (setProgress_progress_le hle (by decide) percent))
  · rw [updated_of_not_running hs]
    exact h

theorem Limited.finish (h : j.Limited) {outcome : JobOutcome} {now : Instant}
    (ok : j.finish outcome now = .ok k) : k.Limited := by
  cases outcome with
  | rendered output =>
    obtain ⟨-, rfl⟩ := become_then_ok ok
    exact .inl rfl
  | failed fault =>
    obtain ⟨hc, rfl⟩ := become_then_ok ok
    exact .inr (.inr (h.progress_le_of_alive (alive_of_canBecome_error hc)))
  | settled artifacts =>
    obtain ⟨-, rfl⟩ := become_then_ok ok
    exact .inr (.inl rfl)

end Job

namespace Queue

open Table (Holds)

variable {q : Queue}

theorem holds_reposition (q : Queue) (h : Holds Job.Limited q.jobs) :
    Holds Job.Limited q.reposition.jobs := by
  have hfold (places : List (String × Nat)) (jobs : Table Job) (hjobs : Holds Job.Limited jobs) :
      Holds Job.Limited (places.foldl (fun jobs place =>
        jobs.modify place.1 fun j => { j with queuePosition := q.positionOf place.2 }) jobs) := by
    induction places generalizing jobs with
    | nil => exact hjobs
    | cons place places ih => exact ih _ (hjobs.modify place.1 fun _ hj => hj)
  exact hfold q.pending.zipIdx q.jobs h

theorem holds_running (h : Holds Job.Limited q.jobs) (s : Submission) {started : Job}
    (hs : started.Limited) : Holds Job.Limited (q.running s started).jobs :=
  holds_reposition _ (h.insert s.id hs)

theorem holds_putBack (h : Holds Job.Limited q.jobs) (s : Submission) (now : Instant) :
    Holds Job.Limited (q.putBack s now).jobs :=
  holds_reposition _ (h.insert s.id (Job.limited_queued s.id s.plan 0 now))

/-- The job that is taken from the line is a record of the queue that has started. -/
theorem holds_takeNext (h : Holds Job.Limited q.jobs) (now : Instant) (ids : List String) :
    Holds Job.Limited (q.takeNext now ids).1.jobs ∧
      ∀ s started, (q.takeNext now ids).2 = some (s, started) → started.Limited := by
  induction ids generalizing q with
  | nil =>
    rw [takeNext]
    refine ⟨h, fun s started hnext => ?_⟩
    cases hnext
  | cons id rest ih =>
    rw [takeNext]
    split
    · next job plan outputName hjob hplan =>
      split
      · next started hstart =>
        refine ⟨h, ?_⟩
        rintro s k ⟨⟩
        exact Job.Limited.start (h id job hjob) hstart
      · exact ih (q := { q with plans := q.plans.erase id }) h
    · exact ih (q := { q with plans := q.plans.erase id }) h

theorem holds_dispatch (q : Queue) (h : Holds Job.Limited q.jobs) (now : Instant)
    (reached : Bool) : Holds Job.Limited (q.dispatch now reached).1.jobs := by
  unfold dispatch
  split
  · next worker hcurrent hwaiting =>
    obtain ⟨hline, hstarted⟩ :=
      holds_takeNext (q := { q with waiting := none }) h now q.pending
    generalize ({ q with waiting := none } : Queue).takeNext now q.pending = next
      at hline hstarted ⊢
    obtain ⟨line, _ | ⟨s, started⟩⟩ := next
    · exact hline
    · have hserved := holds_running hline s (hstarted s started rfl)
      cases reached with
      | true => exact hserved
      | false => exact holds_putBack hserved s now
  · exact h
  · exact h

theorem holds_finish (h : Holds Job.Limited q.jobs) (id : String) (outcome : JobOutcome)
    (now : Instant) (reached : Bool) :
    Holds Job.Limited (q.finish id outcome now reached).1.jobs := by
  unfold finish
  split
  · exact h
  · next job hjob =>
    split
    · exact h
    · next ended hended =>
      refine holds_dispatch _ (holds_reposition _ ?_) now reached
      exact (h.insert id ((h id job hjob).finish hended)).foldl_erase _

theorem holds_step (h : Holds Job.Limited q.jobs) (command : Command) (now : Instant)
    (reached : Bool) : Holds Job.Limited (q.step command now reached).1.jobs := by
  cases command with
  | enqueue s =>
    exact holds_dispatch _ (h.insert s.id (Job.limited_queued _ _ _ _)) now reached
  | claim worker =>
    change Holds Job.Limited (q.claim worker now reached).1.jobs
    unfold claim
    split
    · exact h
    · exact holds_dispatch { q with waiting := some ⟨worker, true⟩ } h now reached
  | leave worker =>
    change Holds Job.Limited (q.leave worker).jobs
    unfold leave
    split
    · split <;> exact h
    · exact h
  | update id u => exact h.modify id fun j hj => hj.updated u
  | finish id outcome => exact holds_finish h id outcome now reached

/-- Whatever happens to a queue, only a job that has made something is at the end of its
progress. -/
theorem limited_history (retained : Nat) (events : List Event) :
    Holds Job.Limited (history retained events).queue.jobs := by
  induction events using List.reverseRecOn with
  | nil => exact Table.holds_nil _
  | append_singleton events e ih =>
    rw [history_snoc]
    exact holds_step ih e.command e.now e.reached

end Queue

end RenderGateway
