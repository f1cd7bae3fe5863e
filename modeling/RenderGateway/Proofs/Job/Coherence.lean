import RenderGateway.Job.Calls
import RenderGateway.Proofs.Effects
import RenderGateway.Proofs.Job.Later

/-!
# Records of jobs are coherent

What the fields of a record say about the job agrees with its status, after any calls. A call that
is refused finds the status out before it sets anything, so it leaves the record as it was, and an
ended job refuses every call.
-/

namespace RenderGateway

namespace OnJob

theorem run_become (status : JobStatus) (j : Job) :
    (become status).run j =
      if j.status.canBecome status then (.ok (), { j with status })
      else (.error (.transition j.status status), j) := by
  by_cases h : j.status.canBecome status = true <;> simp [become, h]

theorem run_ensureRunning (j : Job) :
    ensureRunning.run j =
      if j.status = .running then (.ok (), j)
      else (.error (.transition j.status .running), j) := by
  by_cases h : j.status = .running <;> simp [ensureRunning, h]

/-- What a call answers and leaves, by what it makes of the record. -/
def answered (j : Job) : Except Refusal Job → Except Refusal Unit × Job
  | .ok k => (.ok (), k)
  | .error r => (.error r, j)

theorem run_become_then {assign : OnJob Unit} {fill : Job → Job}
    (hassign : ∀ k, assign.run k = (.ok (), fill k)) (status : JobStatus) (j : Job) :
    (become status >>= fun _ => assign).run j =
      answered j (do let m ← j.become status; return fill m) := by
  rw [run_bind, run_become, Job.become]
  by_cases h : j.status.canBecome status = true
  · rw [if_pos h, if_pos h]
    exact hassign _
  · rw [if_neg h, if_neg h]
    rfl

theorem run_ensureRunning_then {assign : OnJob Unit} {change : Job → Job}
    (hassign : ∀ k, assign.run k = (.ok (), change k)) (j : Job) :
    (ensureRunning >>= fun _ => assign).run j = answered j (j.whileRunning change) := by
  rw [run_bind, run_ensureRunning, Job.whileRunning]
  by_cases h : j.status = .running
  · rw [if_pos h, if_pos h]
    exact hassign _
  · rw [if_neg h, if_neg h]
    rfl

/-- Step by step, a call makes of a record what it makes of it at once, or nothing. -/
theorem run_perform (c : JobCall) (j : Job) : (perform c).run j = answered j (j.call c) := by
  cases c with
  | start now => exact run_become_then (fun _ => rfl) .running j
  | update change =>
    cases change with
    | route d => exact run_ensureRunning_then (fun _ => rfl) j
    | progress percent => exact run_ensureRunning_then (fun _ => rfl) j
    | logs lines keep =>
      change (pushLogs lines keep).run j = answered j (j.pushLogs lines keep)
      unfold pushLogs
      apply run_ensureRunning_then
      intro k
      simp only [run_bind, run_modify, run_get, Job.lastOf]
      split
      · rfl
      · next hle =>
        rw [Nat.sub_eq_zero_of_le (Nat.le_of_not_lt hle), List.drop_zero]
        rfl
  | finish outcome now =>
    cases outcome with
    | rendered output => exact run_become_then (fun _ => rfl) .done j
    | failed fault => exact run_become_then (fun _ => rfl) .error j
    | settled artifacts => exact run_become_then (fun _ => rfl) .partialSuccess j

end OnJob

namespace Job

/-- The fields of a record agree with its status; `position` is the place that it was queued at. -/
structure Coherent (position : UInt64) (j : Job) : Prop where
  progress_eq_iff : j.progress = 100 ↔ j.status = .done ∨ j.status = .partialSuccess
  progress_le : ¬(j.status = .done ∨ j.status = .partialSuccess) → j.progress ≤ 99
  output_of_done : j.status = .done →
    j.outputUrl.isSome = true ∧ j.outputSize.isSome = true ∧ j.duration.isSome = true
  output_of_not_done : j.status ≠ .done →
    j.outputUrl = none ∧ j.outputSize = none ∧ j.duration = none
  error_isSome_iff : j.error.isSome = true ↔ j.status = .error
  artifacts_isSome_iff : j.artifacts.isSome = true ↔ j.status = .partialSuccess
  artifacts_eq : ∀ a ∈ j.artifacts, j.engine = some a.engine ∧ j.fallbackChain = a.fallbackChain
  completedAt_isSome_iff : j.completedAt.isSome = true ↔ j.isTerminal = true
  startedAt_isSome : j.status = .running ∨ j.status = .done ∨ j.status = .partialSuccess →
    j.startedAt.isSome = true
  startedAt_of_queued : j.status = .queued → j.startedAt = none
  position_of_queued : j.status = .queued → j.queuePosition = position
  position_of_left : j.status ≠ .queued → j.queuePosition = 0

/-- Nothing that belongs to the end of a job is in its record. -/
structure Unended (j : Job) : Prop where
  progress_le : j.progress ≤ 99
  outputUrl_eq : j.outputUrl = none
  outputSize_eq : j.outputSize = none
  duration_eq : j.duration = none
  error_eq : j.error = none
  artifacts_eq : j.artifacts = none
  completedAt_eq : j.completedAt = none

variable {j k : Job} {position : UInt64}

theorem Unended.progress_ne (h : j.Unended) : j.progress ≠ 100 := by
  intro heq
  have hle := h.progress_le
  rw [heq] at hle
  exact absurd hle (by decide)

theorem coherent_queued (id : String) (plan : Plan) (position : UInt64) (now : Instant) :
    (queued id plan position now).Coherent position := by
  constructor <;> simp [queued, isTerminal, JobStatus.isTerminal]

theorem Coherent.unended (h : j.Coherent position)
    (hs : j.status = .queued ∨ j.status = .running) : j.Unended := by
  have hnone : ∀ {α : Type} {a : Option α}, ¬ a.isSome = true → a = none := fun h => by
    simpa using h
  have hdone : j.status ≠ .done := by rcases hs with hs | hs <;> simp [hs]
  have hpartial : j.status ≠ .partialSuccess := by rcases hs with hs | hs <;> simp [hs]
  have herror : j.status ≠ .error := by rcases hs with hs | hs <;> simp [hs]
  obtain ⟨hurl, hsize, hduration⟩ := h.output_of_not_done hdone
  exact ⟨h.progress_le (by simp [hdone, hpartial]), hurl, hsize, hduration,
    hnone fun he => herror (h.error_isSome_iff.1 he),
    hnone fun ha => hpartial (h.artifacts_isSome_iff.1 ha),
    hnone fun hc => not_isTerminal_of_alive hs (h.completedAt_isSome_iff.1 hc)⟩

/-- A running job has started and waits for nothing. -/
theorem Unended.coherent_of_running (h : j.Unended) (hs : j.status = .running)
    (hstarted : j.startedAt.isSome = true) (hposition : j.queuePosition = 0) :
    j.Coherent position where
  progress_eq_iff := by simp [hs, h.progress_ne]
  progress_le _ := h.progress_le
  output_of_done := by simp [hs]
  output_of_not_done _ := ⟨h.outputUrl_eq, h.outputSize_eq, h.duration_eq⟩
  error_isSome_iff := by simp [hs, h.error_eq]
  artifacts_isSome_iff := by simp [hs, h.artifacts_eq]
  artifacts_eq := by simp [h.artifacts_eq]
  completedAt_isSome_iff := by simp [hs, h.completedAt_eq, isTerminal, JobStatus.isTerminal]
  startedAt_isSome _ := hstarted
  startedAt_of_queued := by simp [hs]
  position_of_queued := by simp [hs]
  position_of_left _ := hposition

theorem Coherent.start (h : j.Coherent position) {now : Instant} (ok : j.start now = .ok k) :
    k.Coherent position := by
  obtain ⟨hc, rfl⟩ := become_then_ok ok
  have hopen := h.unended (.inl (queued_of_canBecome_running hc))
  exact Unended.coherent_of_running { hopen with } rfl rfl rfl

/-- An update sets nothing that belongs to the end of a job. -/
theorem Coherent.apply (h : j.Coherent position) {u : JobUpdate} (ok : j.apply u = .ok k) :
    k.Coherent position := by
  obtain ⟨hs, rfl⟩ := apply_ok ok
  have hopen := h.unended (.inr hs)
  have hstarted := h.startedAt_isSome (.inl hs)
  have hposition := h.position_of_left (by simp [hs])
  cases u with
  | route | logs => exact Unended.coherent_of_running { hopen with } hs hstarted hposition
  | progress percent =>
    have hle := setProgress_progress_le hopen.progress_le (by decide) percent
    exact Unended.coherent_of_running { hopen with progress_le := hle } hs hstarted hposition

theorem Coherent.finish (h : j.Coherent position) {outcome : JobOutcome} {now : Instant}
    (ok : j.finish outcome now = .ok k) : k.Coherent position := by
  cases outcome with
  | rendered output =>
    obtain ⟨hc, rfl⟩ := become_then_ok ok
    have hs := running_of_canBecome_done hc
    have hopen := h.unended (.inr hs)
    have hstarted := h.startedAt_isSome (.inl hs)
    have hposition := h.position_of_left (by simp [hs])
    constructor <;>
      simp [hopen.error_eq, hopen.artifacts_eq, hstarted, hposition, isTerminal,
        JobStatus.isTerminal]
  | failed fault =>
    obtain ⟨hc, rfl⟩ := become_then_ok ok
    have hopen := h.unended (alive_of_canBecome_error hc)
    constructor <;>
      simp [hopen.progress_ne, hopen.progress_le, hopen.outputUrl_eq, hopen.outputSize_eq,
        hopen.duration_eq, hopen.artifacts_eq, isTerminal, JobStatus.isTerminal]
  | settled artifacts =>
    obtain ⟨hc, rfl⟩ := become_then_ok ok
    have hs := running_of_canBecome_partialSuccess hc
    have hopen := h.unended (.inr hs)
    have hstarted := h.startedAt_isSome (.inl hs)
    have hposition := h.position_of_left (by simp [hs])
    constructor <;>
      simp [hopen.outputUrl_eq, hopen.outputSize_eq, hopen.duration_eq, hopen.error_eq, hstarted,
        hposition, isTerminal, JobStatus.isTerminal]

theorem Coherent.perform (h : j.Coherent position) (c : JobCall) :
    ((OnJob.perform c).run j).2.Coherent position := by
  rw [OnJob.run_perform]
  cases hcall : j.call c with
  | error r => exact h
  | ok k =>
    cases c with
    | start now => exact h.start hcall
    | update change => exact h.apply hcall
    | finish outcome now => exact h.finish hcall

theorem Coherent.after (h : j.Coherent position) (calls : List JobCall) :
    (j.after calls).Coherent position := by
  induction calls generalizing j with
  | nil => exact h
  | cons c calls ih => exact ih (h.perform c)

/-- Only a job that has not ended takes a call. -/
theorem alive_of_call {c : JobCall} (ok : j.call c = .ok k) :
    j.status = .queued ∨ j.status = .running := by
  cases c with
  | start now =>
    obtain ⟨hc, _⟩ := become_then_ok ok
    exact .inl (queued_of_canBecome_running hc)
  | update change => exact .inr (apply_ok ok).1
  | finish outcome now => exact (ended_of_finish ok).alive

/-- A call that is taken changes the record, one that is refused leaves it as it is, and an ended
job refuses every call. -/
theorem perform_call (j : Job) (c : JobCall) :
    (∀ k, j.call c = .ok k → (OnJob.perform c).run j = (.ok (), k)) ∧
      (∀ r, j.call c = .error r → (OnJob.perform c).run j = (.error r, j)) ∧
      (j.isTerminal = true → ∃ r, j.call c = .error r) := by
  rw [OnJob.run_perform]
  refine ⟨fun k hk => by rw [hk]; rfl, fun r hr => by rw [hr]; rfl, fun hend => ?_⟩
  cases hcall : j.call c with
  | error r => exact ⟨r, rfl⟩
  | ok k => exact absurd hend (not_isTerminal_of_alive (alive_of_call hcall))

/-- The record of a new job is coherent after any calls, the next call changes it only if it is
taken, and none is taken once the job has ended. -/
theorem coherent_of_calls (id : String) (plan : Plan) (position : UInt64) (created : Instant)
    (calls : List JobCall) :
    let j := (queued id plan position created).after calls
    j.Coherent position ∧ ∀ c,
      (∀ k, j.call c = .ok k → (OnJob.perform c).run j = (.ok (), k)) ∧
      (∀ r, j.call c = .error r → (OnJob.perform c).run j = (.error r, j)) ∧
      (j.isTerminal = true → ∃ r, j.call c = .error r) := by
  intro j
  exact ⟨(coherent_queued id plan position created).after calls, perform_call j⟩

end Job

end RenderGateway
