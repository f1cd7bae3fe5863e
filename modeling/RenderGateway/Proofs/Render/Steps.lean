import RenderGateway.Proofs.Effects
import RenderGateway.Proofs.Job.Transition
import RenderGateway.Proofs.Render.Retries
import RenderGateway.Render.Work

/-!
# Steps of the work on a job

What each step adds to the calls and the records. No step before the end of the work changes the
job's name or the shelf, and none stops the worker if nothing tells it to.
-/

namespace RenderGateway

/-- A stretch of the work that made some calls and left some records. -/
structure WorkState.Grows (s s' : WorkState) (calls : List Call) (records : List FailureRecord) :
    Prop where
  id_eq : s'.job.id = s.job.id
  projectId_eq : s'.job.projectId = s.job.projectId
  shelf_eq : s'.traces.shelf = s.traces.shelf
  stopping_eq : s'.traces.stopping = s.traces.stopping
  calls_eq : s'.calls = s.calls ++ calls
  records_eq : s'.traces.records = s.traces.records ++ records

namespace WorkState.Grows

variable {s s' t : WorkState} {calls later : List Call} {records others : List FailureRecord}

theorem refl (s : WorkState) : s.Grows s [] [] := by constructor <;> simp

theorem trans (h : s.Grows s' calls records) (h' : s'.Grows t later others) :
    s.Grows t (calls ++ later) (records ++ others) where
  id_eq := h'.id_eq.trans h.id_eq
  projectId_eq := h'.projectId_eq.trans h.projectId_eq
  shelf_eq := h'.shelf_eq.trans h.shelf_eq
  stopping_eq := h'.stopping_eq.trans h.stopping_eq
  calls_eq := by rw [h'.calls_eq, h.calls_eq, List.append_assoc]
  records_eq := by rw [h'.records_eq, h.records_eq, List.append_assoc]

end WorkState.Grows

/-- Nothing tells the worker to stop. -/
def Workshop.Tireless (w : Workshop) : Prop := ∀ j, w.stopsAt j = false

/-- Where the copies of a job's sources are kept. -/
def Workshop.inputs (w : Workshop) (jobId : String) : String :=
  FileName.join (FileName.join w.settings.workDirectory jobId) "inputs"

namespace Work

variable {w : Workshop} (s : WorkState)

/-- A change of the job is sent whether or not the job takes it. -/
theorem run_send (tireless : w.Tireless) (u : JobUpdate) :
    ∃ s', (send w u).run s = (.ok (), s') ∧ s.Grows s' [] [] := by
  refine ⟨_, rfl, ?_⟩
  have hjob : (s.job.updated u).id = s.job.id ∧ (s.job.updated u).projectId = s.job.projectId := by
    rw [Job.updated_eq]
    exact ⟨rfl, rfl⟩
  exact ⟨hjob.1, hjob.2, rfl, by simp [tireless _], by simp, by simp⟩

theorem run_note (tireless : w.Tireless) (line : String) :
    ∃ s', (note w line).run s = (.ok (), s') ∧ s.Grows s' [] [] :=
  run_send s tireless (.logs [line] w.settings.keptLines.toNat)

theorem run_call (c : Call) : ∃ s', (call c).run s = (.ok (), s') ∧ s.Grows s' [c] [] :=
  ⟨_, rfl, rfl, rfl, rfl, rfl, rfl, by simp⟩

/-- The record of a failure that is handled in this state. -/
def recordOf (w : Workshop) (s : WorkState) (e : RenderFailure) (stage : Stage)
    (attempt : UInt32) : FailureRecord :=
  e.handle w.policy ⟨s.job.id, s.job.projectId, stage, attempt⟩
    (w.recordId s.traces.records.length) w.now

theorem run_handle (e : RenderFailure) (stage : Stage) (attempt : UInt32) :
    ∃ s', (handle w e stage attempt).run s = (.ok (recordOf w s e stage attempt), s') ∧
      s.Grows s' [] [recordOf w s e stage attempt] :=
  ⟨_, rfl, rfl, rfl, rfl, rfl, by simp, rfl⟩

theorem run_abort {α : Type} (stage : Stage) (e : RenderFailure) :
    ∃ s', (abort w stage e : Work α).run s =
        (.error (.failed (recordOf w s e stage 1).fault), s') ∧
      s.Grows s' [] [recordOf w s e stage 1] := by
  obtain ⟨s', hrun, hgrows⟩ := run_handle (w := w) s e stage 1
  refine ⟨s', ?_, hgrows⟩
  rw [abort, run_bind_ok hrun]
  rfl

end Work

end RenderGateway
