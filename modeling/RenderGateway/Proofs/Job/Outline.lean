import RenderGateway.Proofs.Job.Transition

/-!
# Jobs without their diagnostics

The outline of a job leaves out its log and the details of its error, and nothing else. Every
operation on a job gives the outline that it gives of the outline alone, so no log line and no
detail is ever carried over to another field. A log update does not show in the outline at all.
-/

namespace RenderGateway

/-- What does not see the hidden part of two things that are otherwise the same is the same. -/
theorem eq_of_hide_eq {σ α : Type} {hide : σ → σ} {s s' : σ} (h : hide s = hide s') (f : σ → α)
    (blind : ∀ s, f (hide s) = f s) : f s = f s' := by
  rw [← blind s, h, blind]

/-- A fault without its details. -/
def Fault.headline (f : Fault) : Fault := { f with details := none }

def JobOutcome.outline : JobOutcome → JobOutcome
  | .failed fault => .failed fault.headline
  | outcome => outcome

namespace JobUpdate

/-- Whether a change is of the log only. -/
def isLogs : JobUpdate → Bool
  | .logs _ _ => true
  | _ => false

/-- The changes that are not of the log only. -/
def substantial (us : List JobUpdate) : List JobUpdate := us.filter fun u => !u.isLogs

/-- What hides the log of a state hides the log updates of it, and keeps all others. -/
theorem foldl_substantial {σ : Type} {step : σ → JobUpdate → σ} {hide : σ → σ}
    (logs : ∀ s lines keep, hide (step s (.logs lines keep)) = hide s)
    (other : ∀ s u, u.isLogs = false → hide (step s u) = step (hide s) u)
    (us : List JobUpdate) (s : σ) :
    hide (us.foldl step s) = (substantial us).foldl step (hide s) := by
  induction us generalizing s with
  | nil => rfl
  | cons u us ih =>
    rw [List.foldl_cons, ih]
    cases u with
    | logs lines keep =>
      rw [logs]
      rfl
    | route | progress =>
      rw [other _ _ rfl]
      rfl

end JobUpdate

namespace Job

/-- A job without its log and without the details of its error. -/
def outline (j : Job) : Job := { j with logsTail := [], error := j.error.map Fault.headline }

theorem outline_reposition (j : Job) (position : UInt64) :
    ({ j with queuePosition := position } : Job).outline =
      { j.outline with queuePosition := position } := rfl

/-- An operation that checks the status and then fills in fields keeps to the outline, if the
filling in does. -/
theorem map_outline_become {j : Job} {status : JobStatus} {fill fill' : Job → Job}
    (hfill : ∀ k : Job, (fill k).outline = fill' k.outline) :
    (do let m ← j.become status; return fill m : Except Refusal Job).map outline =
      (do let m ← j.outline.become status; return fill' m) := by
  have hstatus : j.outline.status = j.status := rfl
  by_cases hc : j.status.canBecome status = true
  · rw [become, become, hstatus, if_pos hc, if_pos hc]
    exact congrArg Except.ok (hfill { j with status })
  · rw [become, become, hstatus, if_neg hc, if_neg hc]
    rfl

theorem map_outline_start (j : Job) (now : Instant) :
    (j.start now).map outline = j.outline.start now :=
  map_outline_become fun _ => rfl

theorem map_outline_finish (j : Job) (outcome : JobOutcome) (now : Instant) :
    (j.finish outcome now).map outline = j.outline.finish outcome.outline now := by
  cases outcome with
  | rendered output => exact map_outline_become fun _ => rfl
  | failed fault => exact map_outline_become fun _ => rfl
  | settled artifacts => exact map_outline_become fun _ => rfl

theorem outline_whileRunning {change change' : Job → Job}
    (hchange : ∀ k : Job, (change k).outline = change' k.outline) (j : Job) :
    ((j.whileRunning change).toOption.getD j).outline =
      (j.outline.whileRunning change').toOption.getD j.outline := by
  have hstatus : j.outline.status = j.status := rfl
  by_cases h : j.status = .running
  · rw [whileRunning, whileRunning, hstatus, if_pos h, if_pos h]
    exact hchange j
  · rw [whileRunning, whileRunning, hstatus, if_neg h, if_neg h]
    rfl

theorem outline_updated_logs (j : Job) (lines : List String) (keep : Nat) :
    (j.updated (.logs lines keep)).outline = j.outline := by
  have hsame : (j.outline.whileRunning fun k => k).toOption.getD j.outline = j.outline := by
    rw [whileRunning]
    split <;> rfl
  rw [updated, apply, pushLogs, ← hsame]
  refine outline_whileRunning ?_ j
  exact fun _ => rfl

theorem outline_updated {u : JobUpdate} (h : u.isLogs = false) (j : Job) :
    (j.updated u).outline = j.outline.updated u := by
  cases u with
  | logs lines keep => cases h
  | route d =>
    rw [updated, updated, apply, apply, setRoute, setRoute]
    refine outline_whileRunning ?_ j
    exact fun _ => rfl
  | progress p =>
    rw [updated, updated, apply, apply, setProgress, setProgress]
    refine outline_whileRunning ?_ j
    exact fun _ => rfl

/-- Only the changes that are not of the log show in the outline. -/
theorem outline_foldl_updated (us : List JobUpdate) (j : Job) :
    (us.foldl updated j).outline = (JobUpdate.substantial us).foldl updated j.outline :=
  JobUpdate.foldl_substantial outline_updated_logs (fun j _ h => outline_updated h j) us j

end Job

end RenderGateway
