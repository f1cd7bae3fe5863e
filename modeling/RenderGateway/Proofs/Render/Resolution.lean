import RenderGateway.Proofs.Command.Compilation
import RenderGateway.Proofs.Queue.Invariant
import RenderGateway.Proofs.Render.Outcome
import RenderGateway.Render.Worker

/-!
# One outcome for every job

A claimed job that nobody else ends gets one outcome. It is done if its plan can be rendered, a
partial success if its plan can be exported, and an error in every other case, with the fault on
record last.
-/

namespace RenderGateway

namespace Workshop

variable (w : Workshop)

/-- The plan as the work goes on with it: in the usual quality if it asks for none. -/
def prepared (p : Plan) : Plan :=
  { p with format := { p.format with
      quality := some (p.format.quality.getD w.settings.defaultQuality) } }

/-- A plan that is in order and goes to the given engine. -/
structure Admits (p : Plan) (engine : Engine) : Prop where
  checked : p.check.isOk = true
  routed : (p.route w.engines).selected = engine

/-- The name under which the output of a job is kept. -/
def fileName (claimed : ClaimedJob) : String :=
  OutputName.ofJob claimed.outputName claimed.job.id claimed.plan.format.container

/-- The job can be rendered into the given file of the store. -/
def CanRender (shelf : Shelf) (claimed : ClaimedJob) (file : StoredFile) : Prop :=
  w.Admits claimed.plan .serverFfmpeg ∧ ∃ paths launch,
    w.Renders shelf claimed.job.id (w.prepared claimed.plan) (fileName claimed) paths launch file

/-- The job can be handed back with the given command. -/
def CanExport (claimed : ClaimedJob) (command : CompiledCommand) : Prop :=
  w.Admits claimed.plan .planExport ∧
    (w.prepared claimed.plan).compile .planExport (fileName claimed) = .ok command

/-- The outcomes other than a failure. -/
inductive Succeeds (shelf : Shelf) (claimed : ClaimedJob) : JobOutcome → Prop
  | rendered {file : StoredFile} (can : w.CanRender shelf claimed file) :
      Succeeds shelf claimed (.rendered ⟨file.publicUrl, file.size, w.elapsed⟩)
  | settled {command : CompiledCommand} (can : w.CanExport claimed command) :
      Succeeds shelf claimed (.settled ⟨.planExport, (claimed.plan.route w.engines).fallbackChain,
        command.program, command.args, w.prepared claimed.plan⟩)

variable {w} {shelf : Shelf} {claimed : ClaimedJob} {outcome : JobOutcome}

theorem Succeeds.admits (h : w.Succeeds shelf claimed outcome) :
    w.Admits claimed.plan .serverFfmpeg ∨ w.Admits claimed.plan .planExport := by
  cases h with
  | rendered can => exact .inl can.1
  | settled can => exact .inr can.1

end Workshop

namespace Work

variable {w : Workshop} {s : WorkState} {claimed : ClaimedJob}

/-- What is done with a plan once it has been routed. -/
def performRouted (w : Workshop) (p : Plan) (d : Routing) (name : String) : Work JobOutcome :=
  match d.selected with
  | .planExport => exportPlan w p d name
  | .serverFfmpeg => render w p name
  | engine => abort w .plan (.media (.engineWithoutCompiler engine))

def routedLine (d : Routing) : String :=
  s!"Routed to {d.selected.name} ({d.fallbackChain.length} engine(s) rejected)"

theorem perform_eq : perform w claimed.plan claimed.outputName = (do
    let _ ← orAbort w .plan claimed.plan.check fun issues => .refused (.plan issues)
    note w (routedLine (claimed.plan.route w.engines))
    send w (.route (claimed.plan.route w.engines))
    let s ← get
    performRouted w (w.prepared claimed.plan) (claimed.plan.route w.engines)
      (OutputName.ofJob claimed.outputName s.job.id claimed.plan.format.container)) := rfl

theorem run_exportPlan (p : Plan) (d : Routing) (name : String)
    (sources : List (String × Nat)) :
    ∃ s' records result, (exportPlan w p d name).run s = (result, s') ∧
      s.Leaves s' sources [] records ∧
      WorkEnd.Resolves
        (fun outcome => ∃ c, p.compile .planExport name = .ok c ∧
          outcome = .settled ⟨.planExport, d.fallbackChain, c.program, c.args, p⟩)
        records result := by
  rcases run_orAbort (w := w) .plan (p.compile .planExport name)
      (fun e => (rfl : (RenderFailure.media e).isRetryable = false)) s with
    ⟨c, hcompile, hrun⟩ | ⟨e, s', r, hcompile, hrun, hends⟩
  · refine ⟨s, [], _, by rw [exportPlan, run_bind_ok hrun]; rfl,
      (WorkState.Grows.refl s).goesOn.leaves (Call.inOrder_nil _),
      .ended ⟨c, hcompile, rfl⟩ (by simp)⟩
  · refine ⟨s', _, _, by rw [exportPlan, run_bind_error hrun],
      hends.leaves (Call.inOrder_nil _), hends.resolves ?_⟩
    rintro outcome ⟨c, hc, _⟩
    cases hcompile.symm.trans hc

variable {shelf : Shelf}

/-- A plan that is in order ends the way of its engine. -/
theorem run_performRouted (tireless : w.Tireless) (going : s.traces.stopping = false)
    {limit : Duration} (hlimit : w.settings.timeLimit? claimed.plan.outputDuration = some limit)
    (hid : s.job.id = claimed.job.id) (checked : claimed.plan.check.isOk = true) :
    ∃ s' calls records result,
      (performRouted w (w.prepared claimed.plan) (claimed.plan.route w.engines)
        (Workshop.fileName claimed)).run s = (result, s') ∧
      s.Leaves s' claimed.plan.assetUrls.zipIdx calls records ∧
      WorkEnd.Resolves (w.Succeeds s.traces.shelf claimed) records result ∧
      ((claimed.plan.route w.engines).selected = .planExport → calls = []) := by
  have other (engine : Engine) (hselected : (claimed.plan.route w.engines).selected = engine)
      (hrender : engine ≠ .serverFfmpeg) (hexport : engine ≠ .planExport) (outcome : JobOutcome) :
      ¬ w.Succeeds s.traces.shelf claimed outcome := by
    intro h
    rcases h.admits with h | h
    · exact hrender (hselected.symm.trans h.routed)
    · exact hexport (hselected.symm.trans h.routed)
  unfold performRouted
  cases hselected : (claimed.plan.route w.engines).selected with
  | serverFfmpeg =>
    obtain ⟨s', calls, records, result, hrun, hleaves, hresolves⟩ :=
      run_render (w.prepared claimed.plan) (Workshop.fileName claimed) tireless going hlimit
    refine ⟨s', calls, records, result, hrun, hleaves, hresolves.congr fun outcome => ?_, nofun⟩
    rw [hid]
    constructor
    · rintro ⟨paths, launch, file, h, rfl⟩
      exact .rendered ⟨⟨checked, hselected⟩, paths, launch, h⟩
    · intro h
      cases h with
      | rendered can =>
        obtain ⟨_, paths, launch, h⟩ := can
        exact ⟨paths, launch, _, h, rfl⟩
      | settled can => cases hselected.symm.trans can.1.routed
  | planExport =>
    obtain ⟨s', records, result, hrun, hleaves, hresolves⟩ := run_exportPlan (w := w) (s := s)
      (w.prepared claimed.plan) (claimed.plan.route w.engines) (Workshop.fileName claimed)
      claimed.plan.assetUrls.zipIdx
    refine ⟨s', [], records, result, hrun, hleaves, hresolves.congr fun outcome => ?_, fun _ => rfl⟩
    constructor
    · rintro ⟨c, hcompile, rfl⟩
      exact .settled ⟨⟨checked, hselected⟩, hcompile⟩
    · intro h
      cases h with
      | rendered can => cases hselected.symm.trans can.1.routed
      | settled can => exact ⟨_, can.2, rfl⟩
  | webcodecs | cloudinary =>
    obtain ⟨s', r, hrun, hends⟩ := run_abort_givesUp (w := w) (s := s) .plan
      (rfl : (RenderFailure.media (.engineWithoutCompiler _)).isRetryable = false)
    exact ⟨s', [], _, _, hrun, hends.leaves (Call.inOrder_nil _),
      hends.resolves (other _ hselected nofun nofun), nofun⟩

theorem run_perform (tireless : w.Tireless) (going : s.traces.stopping = false)
    {limit : Duration} (hlimit : w.settings.timeLimit? claimed.plan.outputDuration = some limit)
    (hid : s.job.id = claimed.job.id) :
    ∃ s' calls records result,
      (perform w claimed.plan claimed.outputName).run s = (result, s') ∧
      s.Leaves s' claimed.plan.assetUrls.zipIdx calls records ∧
      WorkEnd.Resolves (w.Succeeds s.traces.shelf claimed) records result ∧
      ((claimed.plan.route w.engines).selected = .planExport → calls = []) := by
  rw [perform_eq]
  rcases run_orAbort (w := w) .plan claimed.plan.check
    (fun issues => (rfl : (RenderFailure.refused (.plan issues)).isRetryable = false)) s
    with ⟨summary, hcheck, hrun⟩ | ⟨issues, s', r, hcheck, hrun, hends⟩
  · obtain ⟨s₁, hnote, hgrows₁⟩ :=
      run_note s tireless (routedLine (claimed.plan.route w.engines))
    obtain ⟨s₂, hroute, hgrows₂⟩ := run_send s₁ tireless (.route (claimed.plan.route w.engines))
    have hgrows := hgrows₁.trans hgrows₂
    have hid₂ : s₂.job.id = claimed.job.id := hgrows.id_eq.trans hid
    obtain ⟨s', calls, records, result, hrest, hleaves, hresolves, hcalls⟩ :=
      run_performRouted (s := s₂) tireless (hgrows.stopping_eq.trans going) hlimit hid₂
        (by rw [hcheck]; rfl)
    refine ⟨s', calls, records, result, ?_,
      hgrows.goesOn.leaves_later hleaves hleaves.in_order, ?_, hcalls⟩
    · rw [run_bind_ok hrun, run_bind_ok hnote, run_bind_ok hroute, run_bind_ok (run_get s₂), hid₂]
      exact hrest
    · rw [← hgrows.shelf_eq]
      exact hresolves
  · refine ⟨s', [], _, _, by rw [run_bind_error hrun], hends.leaves (Call.inOrder_nil _),
      hends.resolves fun outcome h => ?_, fun _ => rfl⟩
    have hrefused : claimed.plan.check.isOk = false := by
      rw [hcheck]
      rfl
    rcases h.admits with h | h <;> exact absurd (hrefused.symm.trans h.checked) (by decide)

end Work

/-- The job that an attempt to take one has ended. -/
def Turn.job? : Turn → Option Job
  | .finished result => result.toOption
  | .idle | .refused _ | .crashed => none

namespace Workshop

variable {w : Workshop} {claimed : ClaimedJob} {traces : Traces}

/-- The status in which a job ends. -/
structure Decides (w : Workshop) (shelf : Shelf) (claimed : ClaimedJob) (status : JobStatus) :
    Prop where
  done_iff : status = .done ↔ ∃ file, w.CanRender shelf claimed file
  partialSuccess_iff : status = .partialSuccess ↔ ∃ command, w.CanExport claimed command
  error_iff : status = .error ↔
    (¬ ∃ file, w.CanRender shelf claimed file) ∧ ¬ ∃ command, w.CanExport claimed command

section

variable {shelf : Shelf}

theorem CanRender.not_canExport {file : StoredFile} (h : w.CanRender shelf claimed file) :
    ¬ ∃ command, w.CanExport claimed command := by
  rintro ⟨command, h', _⟩
  cases h.1.routed.symm.trans h'.routed

theorem decides_of_succeeds {outcome : JobOutcome} (h : w.Succeeds shelf claimed outcome) :
    w.Decides shelf claimed outcome.status := by
  cases h with
  | rendered can =>
    have hexport := can.not_canExport
    exact {
      done_iff := ⟨fun _ => ⟨_, can⟩, fun _ => rfl⟩
      partialSuccess_iff := ⟨nofun, fun h => absurd h hexport⟩
      error_iff := ⟨nofun, fun h => absurd ⟨_, can⟩ h.1⟩ }
  | settled can =>
    exact {
      done_iff := ⟨nofun, fun ⟨_, h⟩ => absurd ⟨_, can⟩ h.not_canExport⟩
      partialSuccess_iff := ⟨fun _ => ⟨_, can⟩, fun _ => rfl⟩
      error_iff := ⟨nofun, fun h => absurd ⟨_, can⟩ h.2⟩ }

theorem decides_of_fails (h : ∀ outcome, ¬ w.Succeeds shelf claimed outcome) :
    w.Decides shelf claimed .error := by
  have hrender : ¬ ∃ file, w.CanRender shelf claimed file := fun ⟨_, can⟩ => h _ (.rendered can)
  have hexport : ¬ ∃ command, w.CanExport claimed command := fun ⟨_, can⟩ => h _ (.settled can)
  exact {
    done_iff := ⟨nofun, fun h => absurd h hrender⟩
    partialSuccess_iff := ⟨nofun, fun h => absurd h hexport⟩
    error_iff := ⟨fun _ => ⟨hrender, hexport⟩, fun _ => rfl⟩ }

end

/-- The records of the work on a job that ended. There is one record of giving up, the last one,
exactly if the job ended in error, and its fault is that of the job. -/
structure Recorded (claimed : ClaimedJob) (ended : Job) (records : List FailureRecord) :
    Prop where
  named : ∀ r ∈ records, r.jobId = claimed.job.id
  abort_iff : (∃ r ∈ records, r.recovery = .abort) ↔ ended.status = .error
  last : ended.status = .error → ∃ earlier r, records = earlier ++ [r] ∧ r.recovery = .abort ∧
    (∀ r' ∈ earlier, r'.recovery ≠ .abort) ∧ ended.error = some r.fault

theorem recovery_ne_abort {r : FailureRecord} (h : r.IsRetried) : r.recovery ≠ .abort := by
  obtain ⟨delay, hdelay⟩ := h
  rw [hdelay]
  nofun

theorem recorded_of_succeeds {shelf : Shelf} {outcome : JobOutcome} {ended : Job}
    {records : List FailureRecord} (h : w.Succeeds shelf claimed outcome)
    (hstatus : ended.status = outcome.status) (named : ∀ r ∈ records, r.jobId = claimed.job.id)
    (retried : ∀ r ∈ records, r.IsRetried) : Recorded claimed ended records := by
  have hno_error : ended.status ≠ .error := by
    rw [hstatus]
    cases h <;> nofun
  exact {
    named := named
    abort_iff := ⟨fun ⟨r, hr, habort⟩ => absurd habort (recovery_ne_abort (retried r hr)),
      fun h => absurd h hno_error⟩
    last := fun h => absurd h hno_error }

theorem recorded_of_fails {ended : Job} {earlier : List FailureRecord} {r : FailureRecord}
    (hstatus : ended.status = .error) (herror : ended.error = some r.fault)
    (named : ∀ r' ∈ earlier ++ [r], r'.jobId = claimed.job.id)
    (retried : ∀ r' ∈ earlier, r'.IsRetried) (given_up : r.recovery = .abort) :
    Recorded claimed ended (earlier ++ [r]) where
  named := named
  abort_iff := ⟨fun _ => hstatus, fun _ => ⟨r, by simp, given_up⟩⟩
  last := fun _ =>
    ⟨earlier, r, rfl, given_up, fun r' hr => recovery_ne_abort (retried r' hr), herror⟩

/-- What the end of the work on a claimed job amounts to. -/
structure Settles (w : Workshop) (claimed : ClaimedJob) (traces : Traces) (ended : Job)
    (after : Shift) : Prop where
  decides : w.Decides traces.shelf claimed ended.status
  in_order : Call.InOrder claimed.plan.assetUrls.zipIdx (w.process claimed traces).2.calls
  no_calls : ended.status = .partialSuccess → (w.process claimed traces).2.calls = []
  recorded : ∃ records, after.traces.records = traces.records ++ records ∧
    Recorded claimed ended records

/-- The queue takes the outcome of a job that is still running. -/
theorem finish_of_process {q : Queue} {job : Job} {outcome : JobOutcome} {s : WorkState}
    (h : w.process claimed traces = (some outcome, s))
    (stands : q.jobs.find? claimed.job.id = some job) (running : job.status = .running) :
    ∃ ended after, w.finish claimed q traces = (.finished (.ok ended), after) ∧
      after.traces = s.traces ∧ ended.status = outcome.status ∧
      ∀ fault, outcome = .failed fault → ended.error = some fault := by
  obtain ⟨j, hj, hrunning⟩ := Queue.running_updates stands running s.updates
  obtain ⟨ended, hended, hstatus, herror⟩ := Job.finish_of_running hrunning outcome w.now
  have hnotice := Queue.findSome?_finished_finish hj hended true
  let updated := s.updates.foldl (fun q u => q.update claimed.job.id u) q
  refine ⟨ended, ⟨(updated.finish claimed.job.id outcome w.now true).1, s.traces⟩, ?_, rfl,
    hstatus, herror⟩
  simp only [finish, h, Queue.step, hnotice, updated]

/-- A claimed job that is still running gets one outcome, which its plan and what surrounds the
worker decide. The encoder runs once at most, with all sources at hand, and nothing is called for a
job that is handed back. -/
theorem settles_of_running (w : Workshop) (claimed : ClaimedJob) (traces : Traces) {q : Queue}
    {job : Job} (tireless : w.Tireless) (going : traces.stopping = false)
    (usual : w.settings.limitFactor = RenderSettings.default.limitFactor)
    (short : claimed.plan.outputDuration ≤ Int64.maxValue.toInt)
    (stands : q.jobs.find? claimed.job.id = some job) (running : job.status = .running) :
    ∃ ended after, w.finish claimed q traces = (.finished (.ok ended), after) ∧
      w.Settles claimed traces ended after := by
  obtain ⟨limit, hlimit⟩ := RenderSettings.exists_timeLimit? usual short
  obtain ⟨s', calls, records, result, hrun, hleaves, hresolves, hcalls⟩ :=
    Work.run_perform (s := ⟨claimed.job, [], [], traces⟩) tireless going hlimit rfl
  have hcalls_eq : s'.calls = calls := hleaves.calls_eq
  cases hresolves with
  | @ended outcome records succeeds retried =>
    have hprocess : w.process claimed traces = (some outcome, s') := by rw [process, hrun]
    obtain ⟨ended, after, hfinish, hafter, hstatus, _⟩ :=
      finish_of_process hprocess stands running
    have hdecides : w.Decides traces.shelf claimed ended.status :=
      hstatus ▸ decides_of_succeeds succeeds
    refine ⟨ended, after, hfinish, hdecides, ?_, fun hpartial => ?_, records,
      hafter ▸ hleaves.records_eq,
      recorded_of_succeeds succeeds hstatus hleaves.named retried⟩
    · rw [hprocess, hcalls_eq]
      exact hleaves.in_order
    · obtain ⟨command, hexport⟩ := hdecides.partialSuccess_iff.1 hpartial
      rw [hprocess, hcalls_eq]
      exact hcalls hexport.1.routed
  | @failed earlier r fails retried given_up =>
    have hprocess : w.process claimed traces = (some (.failed r.fault), s') := by
      rw [process, hrun]
    obtain ⟨ended, after, hfinish, hafter, hstatus, herror⟩ :=
      finish_of_process hprocess stands running
    have hdecides : w.Decides traces.shelf claimed ended.status :=
      hstatus ▸ decides_of_fails fails
    refine ⟨ended, after, hfinish, hdecides, ?_, fun hpartial => ?_, earlier ++ [r],
      hafter ▸ hleaves.records_eq,
      recorded_of_fails hstatus (herror _ rfl) hleaves.named retried given_up⟩
    · rw [hprocess, hcalls_eq]
      exact hleaves.in_order
    · cases hstatus.symm.trans hpartial

/-- A worker that finds every source and whose encoder writes a byte. -/
def steady : Workshop :=
  { Work.flaky with
    fetch := fun _ _ index _ _ => .ok s!"/work/source-{index}.mp4"
    encode := fun _ => ⟨[], some ⟨#[1]⟩, .ok ()⟩ }

/-- A job for a moment of a film, handed to a worker. -/
def momentJob : ClaimedJob :=
  ⟨{ Job.queued "j" Plan.moment 0 default with status := .running }, Plan.moment, none⟩

def momentQueue : Queue :=
  { Queue.empty 1 with jobs := [("j", momentJob.job)], current := some "j" }

theorem settles_of_momentJob : ∃ ended after,
    steady.finish momentJob momentQueue ⟨[], [], .empty, false⟩ = (.finished (.ok ended), after) ∧
      steady.Settles momentJob ⟨[], [], .empty, false⟩ ended after ∧ ended.status = .done := by
  obtain ⟨ended, after, hfinish, hsettles⟩ := settles_of_running steady momentJob
    ⟨[], [], .empty, false⟩ (q := momentQueue) (fun _ => rfl) rfl rfl (by decide +kernel) rfl rfl
  have hdone : ((steady.finish momentJob momentQueue ⟨[], [], .empty, false⟩).1.job?.map
      Job.status) = some .done := by decide +kernel
  rw [hfinish] at hdone
  exact ⟨ended, after, hfinish, hsettles, Option.some.inj hdone⟩

end Workshop

end RenderGateway
