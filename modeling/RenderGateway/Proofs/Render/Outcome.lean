import RenderGateway.Proofs.Render.Limits
import RenderGateway.Proofs.Render.Sourcing

/-!
# Outcomes of the work on a plan

The work renders a plan if every stage of a render succeeds, hands it back if the plan is to be
exported and compiles, and gives it up in every other case. In any case the calls are in order, and
a record of giving up is there exactly if there is no outcome.
-/

namespace RenderGateway

namespace Workshop

/-- Where the output of a job is written. -/
def outputPath (w : Workshop) (jobId : String) (p : Plan) : String :=
  FileName.join (FileName.join w.settings.workDirectory jobId)
    s!"output.{p.format.container.extension}"

/-- The stages of a render, all of which succeed: the sources are brought, the plan over their
places compiles, the encoder ends well with its command and the store takes the output in. -/
structure Renders (w : Workshop) (shelf : Shelf) (jobId : String) (p : Plan) (name : String)
    (paths : List (String × String)) (launch : Launch) (file : StoredFile) : Prop where
  brought : w.BringsAll shelf jobId p.assetUrls.zipIdx paths
  compiled : (p.localized fun url => List.lookup url paths).compile .serverFfmpeg
    (w.outputPath jobId p) = .ok launch.command
  limited : w.settings.timeLimit? p.outputDuration = some launch.limit
  kept : launch.keptLines = w.settings.keptLines
  encoded : (w.encode launch).result = .ok ()
  stored : ∃ rest, w.takeIn shelf (Work.left (w.outputPath jobId p) (w.encode launch).written)
    (w.outputPath jobId p) name p.format.container.mimeType = .ok (file, rest)

end Workshop

/-- What a stretch of the work leaves behind in all. -/
structure WorkState.Leaves (s s' : WorkState) (sources : List (String × Nat)) (calls : List Call)
    (records : List FailureRecord) : Prop where
  calls_eq : s'.calls = s.calls ++ calls
  records_eq : s'.traces.records = s.traces.records ++ records
  in_order : Call.InOrder sources calls
  named : ∀ r ∈ records, r.jobId = s.job.id

/-- How a stretch of the work ends: with an outcome, or with the fault on record last if there is
none. -/
inductive WorkEnd.Resolves (Succeeds : JobOutcome → Prop) :
    List FailureRecord → Except WorkEnd JobOutcome → Prop
  | ended {outcome : JobOutcome} {records : List FailureRecord} (succeeds : Succeeds outcome)
      (retried : ∀ r ∈ records, r.IsRetried) : Resolves Succeeds records (.ok outcome)
  | failed {earlier : List FailureRecord} {r : FailureRecord}
      (fails : ∀ outcome, ¬ Succeeds outcome) (retried : ∀ r' ∈ earlier, r'.IsRetried)
      (given_up : r.recovery = .abort) :
      Resolves Succeeds (earlier ++ [r]) (.error (.failed r.fault))

section

variable {s s' t : WorkState} {sources : List (String × Nat)} {calls : List Call}
  {records earlier : List FailureRecord} {r : FailureRecord}

theorem WorkState.GivesUp.leaves (h : s.GivesUp s' calls earlier r)
    (in_order : Call.InOrder sources calls) : s.Leaves s' sources calls (earlier ++ [r]) :=
  ⟨h.grows.calls_eq, h.grows.records_eq, in_order, h.named⟩

theorem WorkState.GoesOn.leaves (h : s.GoesOn s' calls records)
    (in_order : Call.InOrder sources calls) : s.Leaves s' sources calls records :=
  ⟨h.grows.calls_eq, h.grows.records_eq, in_order, h.named⟩

/-- What a stretch leaves and what the work before it has left. -/
theorem WorkState.GoesOn.leaves_later (h : s.GoesOn s' calls records)
    {others : List (String × Nat)} {later : List Call} {more : List FailureRecord}
    (rest : s'.Leaves t others later more) (in_order : Call.InOrder sources (calls ++ later)) :
    s.Leaves t sources (calls ++ later) (records ++ more) where
  calls_eq := by rw [rest.calls_eq, h.grows.calls_eq, List.append_assoc]
  records_eq := by rw [rest.records_eq, h.grows.records_eq, List.append_assoc]
  in_order := in_order
  named := h.named_later rest.named

theorem WorkState.GivesUp.resolves (h : s.GivesUp s' calls earlier r)
    {Succeeds : JobOutcome → Prop} (fails : ∀ outcome, ¬ Succeeds outcome) :
    WorkEnd.Resolves Succeeds (earlier ++ [r]) (.error (.failed r.fault)) :=
  .failed fails h.retried h.given_up

end

namespace WorkEnd.Resolves

variable {P Q : JobOutcome → Prop} {records earlier : List FailureRecord}
  {result : Except WorkEnd JobOutcome}

theorem congr (h : Resolves P records result) (hpq : ∀ outcome, P outcome ↔ Q outcome) :
    Resolves Q records result := by
  cases h with
  | ended succeeds retried => exact .ended ((hpq _).1 succeeds) retried
  | failed fails retried given_up =>
    exact .failed (fun outcome h => fails outcome ((hpq outcome).2 h)) retried given_up

/-- Retries before it do not change how a stretch ends. -/
theorem after (h : Resolves P records result) (before : ∀ r ∈ earlier, r.IsRetried) :
    Resolves P (earlier ++ records) result := by
  cases h with
  | ended succeeds retried =>
    exact .ended succeeds (List.forall_mem_append.2 ⟨before, retried⟩)
  | failed fails retried given_up =>
    rw [← List.append_assoc]
    exact .failed fails (List.forall_mem_append.2 ⟨before, retried⟩) given_up

end WorkEnd.Resolves

/-- The stages before the encoder decide on its command. -/
theorem Workshop.Renders.launch_eq {w : Workshop} {shelf : Shelf} {jobId : String} {p : Plan}
    {name : String} {paths known : List (String × String)} {launch : Launch} {file : StoredFile}
    (h : w.Renders shelf jobId p name paths launch file)
    (brought : w.BringsAll shelf jobId p.assetUrls.zipIdx known) {command : CompiledCommand}
    (compiled : (p.localized fun url => List.lookup url known).compile .serverFfmpeg
      (w.outputPath jobId p) = .ok command)
    {limit : Duration} (limited : w.settings.timeLimit? p.outputDuration = some limit) :
    launch = Work.launchOf w command limit := by
  obtain rfl := brought.unique h.brought
  have hcommand : launch.command = command := Except.ok.inj (h.compiled.symm.trans compiled)
  have hlimit : launch.limit = limit := Option.some.inj (h.limited.symm.trans limited)
  rw [Work.launchOf, ← hcommand, ← hlimit, ← h.kept]

namespace Work

variable {w : Workshop} {s : WorkState} {p : Plan} {name : String}

/-- A render that succeeds, with its outcome. -/
def Rendered (w : Workshop) (shelf : Shelf) (jobId : String) (p : Plan) (name : String)
    (outcome : JobOutcome) : Prop :=
  ∃ paths launch file, w.Renders shelf jobId p name paths launch file ∧
    outcome = .rendered ⟨file.publicUrl, file.size, w.elapsed⟩

/-- The work of a render behind the fetching. -/
def renderFetched (w : Workshop) (p : Plan) (name : String) (paths : List (String × String)) :
    Work JobOutcome := do
  let output := w.outputPath (← get).job.id p
  let command ← orAbort w .plan
    ((p.localized fun url => List.lookup url paths).compile .serverFfmpeg output) .media
  let written ← encode w command p.outputDuration
  let file ← store w output written name p.format.container.mimeType
  return .rendered ⟨file.publicUrl, file.size, w.elapsed⟩

theorem render_eq : render w p name = fetchAll w p.assetUrls >>= renderFetched w p name := rfl

theorem run_renderFetched (paths : List (String × String)) :
    (renderFetched w p name paths).run s = (do
      let command ← orAbort w .plan ((p.localized fun url => List.lookup url paths).compile
        .serverFfmpeg (w.outputPath s.job.id p)) .media
      let written ← encode w command p.outputDuration
      let file ← store w (w.outputPath s.job.id p) written name p.format.container.mimeType
      return .rendered ⟨file.publicUrl, file.size, w.elapsed⟩ : Work JobOutcome).run s :=
  run_bind_ok (run_get s) _

/-- The end of a render: the encoder ends well with its command and the store takes in what it
has written. -/
def Delivered (w : Workshop) (shelf : Shelf) (launch : Launch) (output name mimeType : String)
    (outcome : JobOutcome) : Prop :=
  ∃ file rest, (w.encode launch).result = .ok () ∧
    w.takeIn shelf (left output (w.encode launch).written) output name mimeType =
      .ok (file, rest) ∧
    outcome = .rendered ⟨file.publicUrl, file.size, w.elapsed⟩

/-- A render succeeds if its end does, once the stages before it have decided on the command. -/
theorem rendered_iff {shelf : Shelf} {jobId : String} {paths : List (String × String)}
    (brought : w.BringsAll shelf jobId p.assetUrls.zipIdx paths) {command : CompiledCommand}
    (compiled : (p.localized fun url => List.lookup url paths).compile .serverFfmpeg
      (w.outputPath jobId p) = .ok command)
    {limit : Duration} (limited : w.settings.timeLimit? p.outputDuration = some limit)
    (outcome : JobOutcome) :
    Delivered w shelf (launchOf w command limit) (w.outputPath jobId p) name
        p.format.container.mimeType outcome ↔
      Rendered w shelf jobId p name outcome := by
  constructor
  · rintro ⟨file, rest, encoded, stored, rfl⟩
    exact ⟨paths, launchOf w command limit, file,
      ⟨brought, compiled, limited, rfl, encoded, rest, stored⟩, rfl⟩
  · rintro ⟨others, launch, file, h, rfl⟩
    obtain rfl := h.launch_eq brought compiled limited
    obtain ⟨rest, stored⟩ := h.stored
    exact ⟨file, rest, h.encoded, stored, rfl⟩

theorem run_deliver (command : CompiledCommand) (output name mimeType : String) {duration : Int}
    {limit : Duration} (tireless : w.Tireless)
    (hlimit : w.settings.timeLimit? duration = some limit) (s : WorkState) :
    ∃ s' records result, (do
        let written ← encode w command duration
        let file ← store w output written name mimeType
        return .rendered ⟨file.publicUrl, file.size, w.elapsed⟩ : Work JobOutcome).run s =
          (result, s') ∧
      s.Leaves s' [] [.encode (launchOf w command limit)] records ∧
      WorkEnd.Resolves (Delivered w s.traces.shelf (launchOf w command limit) output name mimeType)
        records result := by
  have hin_order : Call.InOrder [] [.encode (launchOf w command limit)] :=
    ⟨[], some (launchOf w command limit), rfl, by simp, by simp [Call.Cover]⟩
  rcases run_encode command tireless hlimit s with
    ⟨s₁, hresult, hencode, hon⟩ | ⟨e, s', r, hresult, hencode, hends⟩
  · rw [run_bind_ok hencode]
    rcases run_store output (w.encode (launchOf w command limit)).written name mimeType s₁ with
      ⟨file, rest, s', hstored, hstore, hcalls, hrecords⟩ | ⟨e, s', r, hrefused, hstore, hends⟩
    · refine ⟨s', [], _, by rw [run_bind_ok hstore]; rfl,
        ⟨hcalls.trans hon.grows.calls_eq, hrecords.trans hon.grows.records_eq, hin_order,
          hon.named⟩, .ended ?_ hon.retried⟩
      rw [hon.grows.shelf_eq] at hstored
      exact ⟨file, rest, hresult, hstored, rfl⟩
    · have hall := hon.givesUp hends
      refine ⟨s', _, _, run_bind_error hstore _, hall.leaves hin_order, hall.resolves ?_⟩
      rintro outcome ⟨file, rest, _, hstored, _⟩
      rw [hon.grows.shelf_eq] at hrefused
      cases hrefused.symm.trans hstored
  · refine ⟨s', _, _, run_bind_error hencode _, hends.leaves hin_order, hends.resolves ?_⟩
    rintro outcome ⟨file, rest, hencoded, _⟩
    cases hresult.symm.trans hencoded

/-- The work behind the fetching runs the encoder once at most. -/
theorem run_renderFetched_resolves (p : Plan) (name : String) {paths : List (String × String)}
    (brought : w.BringsAll s.traces.shelf s.job.id p.assetUrls.zipIdx paths)
    (tireless : w.Tireless) {limit : Duration}
    (hlimit : w.settings.timeLimit? p.outputDuration = some limit) :
    ∃ s' launch? records result, (renderFetched w p name paths).run s = (result, s') ∧
      s.Leaves s' [] (Option.map Call.encode launch?).toList records ∧
      WorkEnd.Resolves (Rendered w s.traces.shelf s.job.id p name) records result := by
  rw [run_renderFetched]
  rcases run_orAbort (w := w) .plan ((p.localized fun url => List.lookup url paths).compile
      .serverFfmpeg (w.outputPath s.job.id p))
      (fun e => (rfl : (RenderFailure.media e).isRetryable = false)) s with
    ⟨command, hcompile, hrun⟩ | ⟨e, s', r, hcompile, hrun, hends⟩
  · obtain ⟨s', records, result, hdeliver, hleaves, hresolves⟩ := run_deliver command
      (w.outputPath s.job.id p) name p.format.container.mimeType tireless hlimit s
    exact ⟨s', some (launchOf w command limit), records, result,
      by rw [run_bind_ok hrun, hdeliver], hleaves,
      hresolves.congr (rendered_iff brought hcompile hlimit)⟩
  · refine ⟨s', none, _, _, run_bind_error hrun _, hends.leaves (Call.inOrder_nil _),
      hends.resolves ?_⟩
    rintro outcome ⟨others, launch, file, h, _⟩
    obtain rfl := brought.unique h.brought
    cases hcompile.symm.trans h.compiled

theorem run_render (p : Plan) (name : String) (tireless : w.Tireless)
    (going : s.traces.stopping = false) {limit : Duration}
    (hlimit : w.settings.timeLimit? p.outputDuration = some limit) :
    ∃ s' calls records result, (render w p name).run s = (result, s') ∧
      s.Leaves s' p.assetUrls.zipIdx calls records ∧
      WorkEnd.Resolves (Rendered w s.traces.shelf s.job.id p name) records result := by
  obtain ⟨s₁, trials, records, result, hfetch, hfetched⟩ :=
    run_fetchAll tireless p.assetUrls going
  rw [render_eq]
  cases result with
  | error e =>
    obtain ⟨earlier, r, rfl, rfl, hends⟩ := hfetched.givesUp
    refine ⟨s₁, _, _, _, run_bind_error hfetch _, hends.leaves hfetched.inOrder, hends.resolves ?_⟩
    rintro outcome ⟨paths, launch, file, h, _⟩
    exact hfetched.not_bringsAll paths h.brought
  | ok paths =>
    have hon := hfetched.goesOn
    have brought : w.BringsAll s₁.traces.shelf s₁.job.id p.assetUrls.zipIdx paths := by
      rw [hon.grows.shelf_eq, hon.grows.id_eq]
      exact hfetched.bringsAll
    obtain ⟨s', launch?, later, result, hrun, hleaves, hresolves⟩ :=
      run_renderFetched_resolves p name brought tireless hlimit
    rw [hon.grows.shelf_eq, hon.grows.id_eq] at hresolves
    exact ⟨s', _, _, result, by rw [run_bind_ok hfetch, hrun],
      hon.leaves_later hleaves (hfetched.inOrder_launch launch?), hresolves.after hon.retried⟩

end Work

end RenderGateway
