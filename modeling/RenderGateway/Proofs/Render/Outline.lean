import RenderGateway.Proofs.Job.Outline
import RenderGateway.Proofs.Render.Stages

/-!
# The work on a job without diagnostics

The outline of a state of the work leaves out what has been written to the log, the details of
faults and whether the worker is told to stop, which it may be because of a log line. What the
work does with a failure, what it sends and how it stores the output have an outline that the
outline of the state before decides.
-/

namespace RenderGateway

namespace MediaFailure

/-- A failure without what the process has written. -/
def outline : MediaFailure → MediaFailure
  | encodingFailed reason _ exitCode => .encodingFailed reason [] exitCode
  | probingFailed reason _ => .probingFailed reason none
  | e => e

end MediaFailure

/-- A record without the details of its fault. -/
def FailureRecord.outline (r : FailureRecord) : FailureRecord :=
  { r with fault := r.fault.headline }

/-- What a process has written goes to the details of the record only: neither the fault nor the
stage nor the decision depends on it. -/
theorem RenderFailure.outline_handle_media (e : MediaFailure) (policy : RetryPolicy)
    (context : FailureContext) (id : String) (now : Instant) :
    ((media e.outline).handle policy context id now).outline =
      ((media e).handle policy context id now).outline := by
  cases e <;> rfl

def WorkEnd.outline : WorkEnd → WorkEnd
  | .failed fault => .failed fault.headline
  | .crashed => .crashed

/-- The traces without diagnostics, and as if nothing told the worker to stop. -/
def Traces.outline (t : Traces) : Traces :=
  { t with records := t.records.map FailureRecord.outline, stopping := false }

namespace WorkState

/-- A state of the work without diagnostics. -/
def outline (s : WorkState) : WorkState :=
  { s with
    job := s.job.outline
    updates := JobUpdate.substantial s.updates
    traces := s.traces.outline }

/-- The state with some more changes of the job sent. -/
def sent (s : WorkState) (us : List JobUpdate) : WorkState :=
  { s with job := us.foldl Job.updated s.job, updates := s.updates ++ us }

/-- The state with one more record. -/
def recorded (s : WorkState) (r : FailureRecord) : WorkState :=
  { s with traces := { s.traces with records := s.traces.records ++ [r] } }

variable (s : WorkState)

theorem outline_sent (us : List JobUpdate) :
    (s.sent us).outline = s.outline.sent (JobUpdate.substantial us) := by
  simp only [sent, outline, Job.outline_foldl_updated, JobUpdate.substantial, List.filter_append]

theorem sent_sent (us vs : List JobUpdate) : (s.sent us).sent vs = s.sent (us ++ vs) := by
  simp only [sent, List.foldl_append, List.append_assoc]

theorem outline_recorded (r : FailureRecord) :
    (s.recorded r).outline = s.outline.recorded r.outline := by
  simp only [recorded, outline, Traces.outline, List.map_append, List.map_cons, List.map_nil]

end WorkState

namespace Work

variable {w : Workshop} {s s' : WorkState} {α β ε : Type}

/-- What a run comes to without diagnostics. -/
def outline (run : Except WorkEnd α × WorkState) : Except WorkEnd α × WorkState :=
  (run.1.mapError WorkEnd.outline, run.2.outline)

/-- Work whose outline the outline of the state before decides. -/
def Discreet (x : Work α) : Prop :=
  ∀ s s' : WorkState, s.outline = s'.outline → outline (x.run s) = outline (x.run s')

/-- Two continuations of the same work come to the same if they do from where it has led. -/
theorem outline_bind_congr (x : Work α) {f g : α → Work β}
    (h : ∀ a t, x.run s = (.ok a, t) → outline ((f a).run t) = outline ((g a).run t)) :
    outline ((x >>= f).run s) = outline ((x >>= g).run s) := by
  rcases hx : x.run s with ⟨e | a, t⟩
  · rw [run_bind_error hx, run_bind_error hx]
  · rw [run_bind_ok hx, run_bind_ok hx]
    exact h a t hx

/-- Discreet work does not tell apart what comes to the same before it. -/
theorem outline_bind {x y : Work α} {f : α → Work β}
    (h : outline (x.run s) = outline (y.run s')) (discreet : ∀ a, Discreet (f a)) :
    outline ((x >>= f).run s) = outline ((y >>= f).run s') := by
  rcases hx : x.run s with ⟨e | a, t⟩ <;> rcases hy : y.run s' with ⟨e' | a', t'⟩ <;>
    rw [hx, hy] at h <;> obtain ⟨hresult, hstate⟩ := Prod.ext_iff.1 h
  · rw [run_bind_error hx, run_bind_error hy]
    exact Prod.ext (congrArg Except.error (Except.error.inj hresult)) hstate
  · cases hresult
  · cases hresult
  · obtain rfl : a = a' := Except.ok.inj hresult
    rw [run_bind_ok hx, run_bind_ok hy]
    exact discreet a t t' hstate

theorem discreet_pure (a : α) : Discreet (pure a : Work α) := fun _ _ h => Prod.ext rfl h

/-- A state and a failure tell the record of it, and both may be known in outline only. -/
theorem outline_recordOf {e e' : RenderFailure} (hstate : s.outline = s'.outline)
    (hfailure : ∀ context id, (e.handle w.policy context id w.now).outline =
      (e'.handle w.policy context id w.now).outline) (stage : Stage) (attempt : UInt32) :
    (recordOf w s e stage attempt).outline = (recordOf w s' e' stage attempt).outline := by
  have hid := eq_of_hide_eq hstate (fun t => t.job.id) fun _ => rfl
  have hproject := eq_of_hide_eq hstate (fun t => t.job.projectId) fun _ => rfl
  have hlength := eq_of_hide_eq hstate (fun t => t.traces.records.length) fun _ => List.length_map _
  rw [recordOf, recordOf, hid, hproject, hlength]
  exact hfailure _ _

theorem outline_abort {e e' : RenderFailure} (hstate : s.outline = s'.outline)
    (hfailure : ∀ context id, (e.handle w.policy context id w.now).outline =
      (e'.handle w.policy context id w.now).outline) (stage : Stage) :
    outline ((abort w stage e : Work α).run s) = outline ((abort w stage e').run s') := by
  have hrecord := outline_recordOf hstate hfailure stage 1
  have hrun (t : WorkState) (e : RenderFailure) : (abort w stage e : Work α).run t =
      (.error (.failed (recordOf w t e stage 1).fault), t.recorded (recordOf w t e stage 1)) := rfl
  rw [hrun, hrun]
  refine Prod.ext ?_ ?_
  · exact congrArg (fun r : FailureRecord => Except.error (WorkEnd.failed r.fault)) hrecord
  · change (s.recorded _).outline = (s'.recorded _).outline
    rw [WorkState.outline_recorded, WorkState.outline_recorded, hstate, hrecord]

/-- Errors that leave alike records are alike to the work. -/
theorem outline_orAbort {x x' : Except ε α} {failure : ε → RenderFailure} (hide : ε → ε)
    (hstate : s.outline = s'.outline) (hresult : x.mapError hide = x'.mapError hide)
    (hfailure : ∀ e context id, ((failure (hide e)).handle w.policy context id w.now).outline =
      ((failure e).handle w.policy context id w.now).outline) (stage : Stage) :
    outline ((orAbort w stage x failure).run s) =
      outline ((orAbort w stage x' failure).run s') := by
  cases x <;> cases x'
  · next e e' =>
    have he : hide e = hide e' := Except.error.inj hresult
    refine outline_abort hstate (fun context id => ?_) stage
    rw [← hfailure, he, hfailure]
  · cases hresult
  · cases hresult
  · cases hresult
    exact discreet_pure _ _ _ hstate

/-- The changes of a job are sent, and the log lines among them do not show. -/
theorem run_sends_outline (us : List JobUpdate) (s : WorkState) :
    ∃ t, (forIn us PUnit.unit fun u _ => do
        send w u
        pure (.yield PUnit.unit) : Work PUnit).run s = (.ok PUnit.unit, t) ∧
      t.outline = s.outline.sent (JobUpdate.substantial us) := by
  induction us generalizing s with
  | nil => exact ⟨s, rfl, by simp [WorkState.sent, JobUpdate.substantial]⟩
  | cons u us ih =>
    let s₁ := ((send w u).run s).2
    have hsend : (send w u).run s = (.ok (), s₁) := rfl
    have hoff : s₁.outline = s.outline.sent (JobUpdate.substantial [u]) :=
      s.outline_sent [u]
    obtain ⟨t, hrest, ht⟩ := ih s₁
    have hfirst : (send w u >>= fun _ => pure (.yield PUnit.unit) :
        Work (ForInStep PUnit)).run s = (.ok (.yield PUnit.unit), s₁) := by
      rw [run_bind_ok hsend]
      rfl
    refine ⟨t, ?_, ?_⟩
    · rw [List.forIn_cons, run_bind_ok hfirst]
      exact hrest
    · rw [ht, hoff, WorkState.sent_sent, JobUpdate.substantial, JobUpdate.substantial,
        ← List.filter_append]
      rfl

/-- The output is stored under the name and with the content it has, whatever the log says. -/
theorem discreet_store (output : String) (written : Option ByteArray) (name mimeType : String) :
    Discreet (store w output written name mimeType) := by
  intro s s' h
  have hshelf : s.traces.shelf = s'.traces.shelf := congrArg (fun t => t.traces.shelf) h
  have hstart (t : WorkState) : (store w output written name mimeType).run t =
      (orAbort w .store (w.takeIn t.traces.shelf (left output written) output name mimeType)
        .storage >>= fun r => do
          modify fun s => { s with traces := { s.traces with shelf := r.2.1 } }
          return r.1 : Work StoredFile).run t := rfl
  rw [hstart, hstart, hshelf]
  refine outline_bind (outline_orAbort id h rfl (fun _ _ _ => rfl) .store) ?_
  rintro ⟨file, shelf, sources⟩ t t' ht
  refine Prod.ext rfl ?_
  exact congrArg (fun t : WorkState => { t with traces := { t.traces with shelf } }) ht

end Work

end RenderGateway
