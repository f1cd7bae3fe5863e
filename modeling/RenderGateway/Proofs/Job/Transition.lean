import RenderGateway.Queue.Basic

/-!
# What the operations on a job do to its record

A queued job can always start. An operation that ends a job leaves a terminal
record with the same id that waits behind nothing, and only a queued or a
running job can end. An update leaves id, status and position as they are.
-/

namespace RenderGateway

/-- The status of a job that ended with an outcome. -/
def JobOutcome.status : JobOutcome → JobStatus
  | rendered _ => .done
  | failed _ => .error
  | settled _ => .partialSuccess

/-- What an update makes of the record of a running job. -/
def JobUpdate.change : JobUpdate → Job → Job
  | route d, j => { j with engine := some d.selected, fallbackChain := d.fallbackChain }
  | progress percent, j => { j with progress := max j.progress (min percent 99) }
  | logs lines keep, j => { j with logsTail := Job.lastOf keep (j.logsTail ++ lines) }

namespace Job

/-- The record of a job that started. -/
def started (j : Job) (now : Instant) : Job :=
  { j with status := .running, queuePosition := 0, startedAt := some now }

theorem start_of_queued {j : Job} (h : j.status = .queued) (now : Instant) :
    j.start now = .ok (j.started now) := by
  simp [start, become, h, JobStatus.canBecome, started, bind, Except.bind, pure, Except.pure]

/-- Every operation that ends a job checks its status and then fills in fields. -/
theorem become_then_ok {j k : Job} {status : JobStatus} {fill : Job → Job}
    (h : (do let m ← j.become status; return fill m) = Except.ok k) :
    j.status.canBecome status = true ∧ k = fill { j with status } := by
  by_cases hc : j.status.canBecome status = true
  · simp only [become, if_pos hc, bind, Except.bind, pure, Except.pure, Except.ok.injEq] at h
    exact ⟨hc, h.symm⟩
  · simp [become, if_neg hc, bind, Except.bind] at h

theorem queued_of_canBecome_running {s : JobStatus} (h : s.canBecome .running = true) :
    s = .queued := by cases s <;> simp_all [JobStatus.canBecome]

theorem running_of_canBecome_done {s : JobStatus} (h : s.canBecome .done = true) :
    s = .running := by cases s <;> simp_all [JobStatus.canBecome]

theorem running_of_canBecome_partialSuccess {s : JobStatus}
    (h : s.canBecome .partialSuccess = true) : s = .running := by
  cases s <;> simp_all [JobStatus.canBecome]

theorem alive_of_canBecome_error {s : JobStatus} (h : s.canBecome .error = true) :
    s = .queued ∨ s = .running := by cases s <;> simp_all [JobStatus.canBecome]

/-- What an operation that ends a job may rely on and what it leaves. -/
structure Ended (j k : Job) : Prop where
  alive : j.status = .queued ∨ j.status = .running
  id_eq : k.id = j.id
  terminal : k.isTerminal = true
  position : k.queuePosition = 0 ∨ j.status = .running ∧ k.queuePosition = j.queuePosition

theorem ended_of_finish {j k : Job} {outcome : JobOutcome} {now : Instant}
    (h : j.finish outcome now = .ok k) : j.Ended k := by
  cases outcome with
  | rendered output =>
    obtain ⟨hc, rfl⟩ := become_then_ok h
    have hs := running_of_canBecome_done hc
    exact ⟨.inr hs, rfl, rfl, .inr ⟨hs, rfl⟩⟩
  | failed fault =>
    obtain ⟨hc, rfl⟩ := become_then_ok h
    exact ⟨alive_of_canBecome_error hc, rfl, rfl, .inl rfl⟩
  | settled artifacts =>
    obtain ⟨hc, rfl⟩ := become_then_ok h
    have hs := running_of_canBecome_partialSuccess hc
    exact ⟨.inr hs, rfl, rfl, .inr ⟨hs, rfl⟩⟩

/-- A running job can end in every way. -/
theorem finish_of_running {j : Job} (h : j.status = .running) (outcome : JobOutcome)
    (now : Instant) :
    ∃ k, j.finish outcome now = .ok k ∧ k.status = outcome.status ∧
      ∀ fault, outcome = .failed fault → k.error = some fault := by
  cases outcome with
  | rendered output =>
    refine ⟨_, by simp [finish, complete, become, h, JobStatus.canBecome]; rfl, rfl, nofun⟩
  | failed fault =>
    refine ⟨_, by simp [finish, fail, become, h, JobStatus.canBecome]; rfl, rfl, ?_⟩
    rintro _ ⟨⟩
    rfl
  | settled artifacts =>
    refine ⟨_, by simp [finish, settle, become, h, JobStatus.canBecome]; rfl, rfl, nofun⟩

theorem whileRunning_ok {j k : Job} {change : Job → Job} (h : j.whileRunning change = .ok k) :
    j.status = .running ∧ k = change j := by
  by_cases hs : j.status = .running
  · rw [whileRunning, if_pos hs] at h
    exact ⟨hs, (Except.ok.inj h).symm⟩
  · rw [whileRunning, if_neg hs] at h
    cases h

theorem apply_ok {j k : Job} {u : JobUpdate} (h : j.apply u = .ok k) :
    j.status = .running ∧ k = u.change j := by
  have hchange : j.whileRunning u.change = .ok k := by
    cases u with
    | route | progress | logs => exact h
  exact whileRunning_ok hchange

/-- A running job takes every update. -/
theorem apply_of_running {j : Job} (h : j.status = .running) (u : JobUpdate) :
    j.apply u = .ok (u.change j) := by
  cases u with
  | route | progress | logs => exact if_pos h

/-- The record after an update, which a job that is not running refuses. -/
def updated (j : Job) (u : JobUpdate) : Job := (j.apply u).toOption.getD j

theorem updated_eq_of_apply {j k : Job} {u : JobUpdate} (h : j.apply u = .ok k) :
    j.updated u = k := by simp [updated, h, Except.toOption]

theorem updated_of_running {j : Job} (h : j.status = .running) (u : JobUpdate) :
    j.updated u = u.change j := updated_eq_of_apply (apply_of_running h u)

theorem updated_of_not_running {j : Job} (h : j.status ≠ .running) (u : JobUpdate) :
    j.updated u = j := by
  cases hu : j.apply u with
  | ok k => exact absurd (apply_ok hu).1 h
  | error r => simp [updated, hu, Except.toOption]

/-- An update changes neither the names of a job nor its status and position. -/
theorem updated_eq (j : Job) (u : JobUpdate) :
    j.updated u = { j with
      progress := (j.updated u).progress
      logsTail := (j.updated u).logsTail
      engine := (j.updated u).engine
      fallbackChain := (j.updated u).fallbackChain } := by
  cases h : j.apply u with
  | error r => simp [updated, h, Except.toOption]
  | ok k =>
    rw [updated_eq_of_apply h]
    obtain ⟨_, rfl⟩ := apply_ok h
    cases u with
    | route | progress | logs => rfl

theorem updated_frame (j : Job) (u : JobUpdate) :
    (j.updated u).id = j.id ∧ (j.updated u).status = j.status ∧
      (j.updated u).queuePosition = j.queuePosition := by
  rw [updated_eq]
  exact ⟨rfl, rfl, rfl⟩

end Job

end RenderGateway
