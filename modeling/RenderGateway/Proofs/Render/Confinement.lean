import RenderGateway.Proofs.Queue.Outline
import RenderGateway.Proofs.Render.Outline
import RenderGateway.Proofs.Render.Resolution

/-!
# What a process has written stays in the diagnostics

Two runs of the work on a job whose encoders differ in what they write, and in nothing else, come
to the same: the jobs end alike but for the log and the details of their errors, and so do the
records of the failures but for the details. The runs are the same up to the encoder, and from
there on their outlines are.
-/

namespace RenderGateway

/-- What a run shows of its progress. -/
def RunEvent.snapshots (events : List RunEvent) : List RunEvent :=
  events.filter fun e => e.logLine?.isNone

/-- Two runs of the encoder that differ at most in the lines that the process has written: those
that are shown and those that a failure holds. -/
structure EncoderReport.Alike (r r' : EncoderReport) : Prop where
  snapshots_eq : RunEvent.snapshots r.events = RunEvent.snapshots r'.events
  written_eq : r.written = r'.written
  result_eq : r.result.mapError MediaFailure.outline = r'.result.mapError MediaFailure.outline

/-- The worker with another encoder. -/
def Workshop.withEncoder (w : Workshop) (encode : Launch → EncoderReport) : Workshop :=
  { w with encode }

namespace Work

variable {w : Workshop} {encode' : Launch → EncoderReport} {s : WorkState}

/-- The changes of a job that are not of its log come from the progress. -/
theorem substantial_eventUpdates (total : Int64) (keep : Nat) (sent : UInt8)
    (events : List RunEvent) :
    JobUpdate.substantial (eventUpdates total keep sent events) =
      eventUpdates total keep sent (RunEvent.snapshots events) := by
  induction events generalizing sent with
  | nil => rfl
  | cons e events ih =>
    cases e with
    | log line => exact ih sent
    | progress p =>
      change JobUpdate.substantial (eventUpdates total keep sent (.progress p :: events)) =
        eventUpdates total keep sent (.progress p :: RunEvent.snapshots events)
      simp only [eventUpdates]
      split
      · exact ih sent
      · rw [← ih]
        rfl

/-- The state in which the encoder has been called. -/
def launched (s : WorkState) (l : Launch) : WorkState :=
  { s with
    calls := s.calls ++ [.encode l]
    traces := { s.traces with launches := s.traces.launches ++ [l] } }

/-- The work on the report of a run: its progress has been sent when its result is looked at. -/
theorem run_encode_report (command : CompiledCommand) {duration : Int} {limit : Duration}
    (hlimit : w.settings.timeLimit? duration = some limit) (s : WorkState) :
    ∃ t, (encode w command duration).run s = (do
        orAbort w .encode (w.encode (launchOf w command limit)).result .media
        return (w.encode (launchOf w command limit)).written : Work (Option ByteArray)).run t ∧
      t.outline = (launched s (launchOf w command limit)).outline.sent
        (eventUpdates command.duration w.settings.keptLines.toNat 0
          (RunEvent.snapshots (w.encode (launchOf w command limit)).events)) := by
  have hlaunch : (launch w (launchOf w command limit)).run s =
      (.ok (w.encode (launchOf w command limit)), launched s (launchOf w command limit)) := rfl
  obtain ⟨t, hsends, ht⟩ := run_sends_outline (w := w) (eventUpdates command.duration
    w.settings.keptLines.toNat 0 (w.encode (launchOf w command limit)).events)
    (launched s (launchOf w command limit))
  refine ⟨t, ?_, by rw [ht, substantial_eventUpdates]⟩
  rw [encode, hlimit]
  change (launch w (launchOf w command limit) >>= _).run s = _
  rw [run_bind_ok hlaunch, run_bind_ok hsends]

theorem outline_encode (alike : ∀ l, (w.encode l).Alike (encode' l)) (command : CompiledCommand)
    (duration : Int) :
    outline ((encode w command duration).run s) =
      outline ((encode (w.withEncoder encode') command duration).run s) := by
  cases hlimit : w.settings.timeLimit? duration with
  | none =>
    have hcrash {v : Workshop} (h : v.settings.timeLimit? duration = none) :
        (encode v command duration).run s = (.error .crashed, s) := by
      rw [encode, h]
      rfl
    rw [hcrash hlimit, hcrash (v := w.withEncoder encode') hlimit]
  | some limit =>
    have hreport := alike (launchOf w command limit)
    obtain ⟨t, hrun, ht⟩ := run_encode_report command hlimit s
    obtain ⟨t', hrun', ht'⟩ :=
      run_encode_report (w := w.withEncoder encode') command hlimit s
    have hstate : t.outline = t'.outline := by
      rw [ht, hreport.snapshots_eq]
      exact ht'.symm
    rw [hrun, hrun', hreport.written_eq]
    refine outline_bind (outline_orAbort _ hstate hreport.result_eq ?_ .encode)
      fun _ => discreet_pure _
    exact fun e context id => RenderFailure.outline_handle_media e w.policy context id w.now

section

variable (w encode')

/-- Fetching makes no use of the encoder. -/
theorem fetchFrom_withEncoder (index : Nat) (url : String) (retries : Nat) (attempt : UInt32) :
    fetchFrom (w.withEncoder encode') index url retries attempt =
      fetchFrom w index url retries attempt := by
  induction retries generalizing attempt with
  | zero => rfl
  | succ retries ih =>
    simp only [fetchFrom, ih]
    rfl

theorem fetchAll_withEncoder (urls : List String) :
    fetchAll (w.withEncoder encode') urls = fetchAll w urls := by
  simp only [fetchAll, fetchFrom_withEncoder]
  rfl

end

theorem outline_render (alike : ∀ l, (w.encode l).Alike (encode' l)) (p : Plan) (name : String) :
    outline ((render w p name).run s) =
      outline ((render (w.withEncoder encode') p name).run s) := by
  rw [render_eq, render_eq, fetchAll_withEncoder]
  refine outline_bind_congr _ fun paths t _ => ?_
  rw [run_renderFetched, run_renderFetched]
  refine outline_bind_congr _ fun command u _ => ?_
  refine outline_bind (outline_encode alike command _) fun written => ?_
  exact fun _ _ h => outline_bind (discreet_store _ _ _ _ _ _ h) fun _ => discreet_pure _

theorem outline_performRouted (alike : ∀ l, (w.encode l).Alike (encode' l)) (p : Plan)
    (d : Routing) (name : String) :
    outline ((performRouted w p d name).run s) =
      outline ((performRouted (w.withEncoder encode') p d name).run s) := by
  unfold performRouted
  cases d.selected with
  | serverFfmpeg => exact outline_render alike p name
  | planExport | webcodecs | cloudinary => rfl

theorem outline_perform (alike : ∀ l, (w.encode l).Alike (encode' l)) (claimed : ClaimedJob) :
    outline ((perform w claimed.plan claimed.outputName).run s) =
      outline ((perform (w.withEncoder encode') claimed.plan claimed.outputName).run s) := by
  rw [perform_eq, perform_eq]
  refine outline_bind_congr _ fun _ _ _ => ?_
  refine outline_bind_congr _ fun _ _ _ => ?_
  refine outline_bind_congr _ fun _ _ _ => ?_
  refine outline_bind_congr _ fun _ _ _ => ?_
  exact outline_performRouted alike _ _ _

end Work

/-- Two records of a job that differ in the log and in the details of the error at most. -/
structure Job.Alike (j j' : Job) : Prop where
  status_eq : j.status = j'.status
  outputUrl_eq : j.outputUrl = j'.outputUrl
  code_eq : j.error.map Fault.code = j'.error.map Fault.code
  message_eq : j.error.map Fault.message = j'.error.map Fault.message
  outline_eq : j.outline = j'.outline

theorem Job.alike_of_outline_eq {j j' : Job} (h : j.outline = j'.outline) : j.Alike j' where
  status_eq := eq_of_hide_eq h Job.status fun _ => rfl
  outputUrl_eq := eq_of_hide_eq h Job.outputUrl fun _ => rfl
  code_eq := eq_of_hide_eq h (fun j => j.error.map Fault.code) fun j => Option.map_map _ _ j.error
  message_eq :=
    eq_of_hide_eq h (fun j => j.error.map Fault.message) fun j => Option.map_map _ _ j.error
  outline_eq := h

/-- Two records of a failure that differ in the details of the fault at most. -/
structure FailureRecord.Alike (r r' : FailureRecord) : Prop where
  stage_eq : r.stage = r'.stage
  code_eq : r.fault.code = r'.fault.code
  message_eq : r.fault.message = r'.fault.message
  attempt_eq : r.attempt = r'.attempt
  recovery_eq : r.recovery = r'.recovery
  outline_eq : r.outline = r'.outline

theorem FailureRecord.alike_of_outline_eq {r r' : FailureRecord} (h : r.outline = r'.outline) :
    r.Alike r' where
  stage_eq := eq_of_hide_eq h FailureRecord.stage fun _ => rfl
  code_eq := eq_of_hide_eq h (fun r => r.fault.code) fun _ => rfl
  message_eq := eq_of_hide_eq h (fun r => r.fault.message) fun _ => rfl
  attempt_eq := eq_of_hide_eq h FailureRecord.attempt fun _ => rfl
  recovery_eq := eq_of_hide_eq h FailureRecord.recovery fun _ => rfl
  outline_eq := h

/-- Two ends of the work on a job that differ in the diagnostics of the job at most. -/
inductive Turn.Alike : Turn → Turn → Prop
  | crashed : Alike .crashed .crashed
  | untold (e : QueueError) : Alike (.finished (.error e)) (.finished (.error e))
  | ended {j j' : Job} (alike : j.Alike j') : Alike (.finished (.ok j)) (.finished (.ok j'))

/-- What an answer of the queue, if there is one, tells about the end of the work. -/
def Turn.told : Option (Except QueueError Job) → Turn
  | some result => .finished result
  | none => .crashed

theorem Turn.told_alike {answer answer' : Option (Except QueueError Job)}
    (h : answer.map (Except.map Job.outline) = answer'.map (Except.map Job.outline)) :
    (told answer).Alike (told answer') := by
  cases answer with
  | none =>
    cases answer' with
    | none => exact .crashed
    | some result' => cases h
  | some result =>
    cases answer' with
    | none => cases h
    | some result' =>
      have hresult := Option.some.inj h
      cases result with
      | error e =>
        cases result' with
        | error e' =>
          obtain rfl : e = e' := Except.error.inj hresult
          exact .untold e
        | ok j' => cases hresult
      | ok j =>
        cases result' with
        | error e' => cases hresult
        | ok j' => exact .ended (Job.alike_of_outline_eq (Except.ok.inj hresult))

/-- Two states after the work on a job that differ in diagnostics at most: in the queue, and in the
records one by one. -/
structure Shift.Alike (s s' : Shift) : Prop where
  queue_eq : s.queue.outline = s'.queue.outline
  records : List.Forall₂ FailureRecord.Alike s.traces.records s'.traces.records
  launches_eq : s.traces.launches = s'.traces.launches
  shelf_eq : s.traces.shelf = s'.traces.shelf

namespace Workshop

variable {w : Workshop} {encode' : Launch → EncoderReport} {claimed : ClaimedJob} {q : Queue}

/-- The queue takes the outcome of a job, and tells what it has made of it. -/
def close (claimed : ClaimedJob) (now : Instant) (q : Queue) (outcome : JobOutcome)
    (traces : Traces) : Turn × Shift :=
  let (q, notices) := q.finish claimed.job.id outcome now true
  (.told (notices.findSome? Queue.Notice.finished?), ⟨q, traces⟩)

/-- What comes after the work on a job, of which the queue hears the changes first. -/
def conclude (claimed : ClaimedJob) (now : Instant) (q : Queue)
    (done : Option JobOutcome × WorkState) : Turn × Shift :=
  let q := done.2.updates.foldl (fun q u => q.update claimed.job.id u) q
  match done.1 with
  | none => (.crashed, ⟨q, done.2.traces⟩)
  | some outcome => close claimed now q outcome done.2.traces

theorem finish_eq_conclude (traces : Traces) :
    w.finish claimed q traces = conclude claimed w.now q (w.process claimed traces) := by
  unfold finish
  rcases w.process claimed traces with ⟨_ | outcome, s⟩
  · rfl
  · simp only [conclude, close, Queue.step]
    split
    · next hn => rw [hn]; rfl
    · next hn => rw [hn]; rfl

/-- The outcome that the end of the work amounts to, unless the worker crashed, and the state. -/
def ended (run : Except WorkEnd JobOutcome × WorkState) : Option JobOutcome × WorkState :=
  match run with
  | (.ok outcome, s) => (some outcome, s)
  | (.error (.failed fault), s) => (some (.failed fault), s)
  | (.error .crashed, s) => (none, s)

theorem process_eq_ended (traces : Traces) :
    w.process claimed traces = ended
      ((Work.perform w claimed.plan claimed.outputName).run ⟨claimed.job, [], [], traces⟩) := rfl

theorem ended_outline (run : Except WorkEnd JobOutcome × WorkState) :
    ((ended run).1.map JobOutcome.outline, (ended run).2.outline) =
      ((ended (Work.outline run)).1.map JobOutcome.outline, (ended (Work.outline run)).2) := by
  rcases run with ⟨(fault | _) | outcome, s⟩ <;> rfl

theorem process_alike (alike : ∀ l, (w.encode l).Alike (encode' l)) (claimed : ClaimedJob)
    (traces : Traces) :
    ((w.process claimed traces).1.map JobOutcome.outline, (w.process claimed traces).2.outline) =
      (((w.withEncoder encode').process claimed traces).1.map JobOutcome.outline,
        ((w.withEncoder encode').process claimed traces).2.outline) := by
  rw [process_eq_ended, process_eq_ended, ended_outline, ended_outline,
    Work.outline_perform alike claimed]

/-- What a state of the work shows without diagnostics decides what a shift shows without them. -/
theorem shift_alike {q q' : Queue} {s s' : WorkState} (hq : q.outline = q'.outline)
    (hs : s.outline = s'.outline) : Shift.Alike ⟨q, s.traces⟩ ⟨q', s'.traces⟩ where
  queue_eq := hq
  records := by
    have hrecords : s.traces.records.map FailureRecord.outline =
        s'.traces.records.map FailureRecord.outline := congrArg (fun t => t.traces.records) hs
    rw [← List.forall₂_eq_eq_eq, List.forall₂_map_left_iff, List.forall₂_map_right_iff] at hrecords
    exact hrecords.imp fun _ _ h => FailureRecord.alike_of_outline_eq h
  launches_eq := congrArg (fun t => t.traces.launches) hs
  shelf_eq := congrArg (fun t => t.traces.shelf) hs

theorem close_alike {q q' : Queue} {outcome outcome' : JobOutcome} {s s' : WorkState}
    (hq : q.outline = q'.outline) (houtcome : outcome.outline = outcome'.outline)
    (hs : s.outline = s'.outline) (claimed : ClaimedJob) (now : Instant) :
    (close claimed now q outcome s.traces).1.Alike (close claimed now q' outcome' s'.traces).1 ∧
      (close claimed now q outcome s.traces).2.Alike
        (close claimed now q' outcome' s'.traces).2 := by
  have hstep := q.finish_outline claimed.job.id outcome now true
  rw [hq, houtcome, q'.finish_outline] at hstep
  obtain ⟨hafter, hnotices⟩ := Prod.ext_iff.1 hstep
  have htold := congrArg (List.findSome? Queue.Notice.finished?) hnotices
  simp only [Queue.findSome?_finished_outline] at htold
  exact ⟨Turn.told_alike htold.symm, shift_alike hafter.symm hs⟩

theorem conclude_alike {done done' : Option JobOutcome × WorkState}
    (houtcome : done.1.map JobOutcome.outline = done'.1.map JobOutcome.outline)
    (hstate : done.2.outline = done'.2.outline) (claimed : ClaimedJob) (now : Instant)
    (q : Queue) :
    (conclude claimed now q done).1.Alike (conclude claimed now q done').1 ∧
      (conclude claimed now q done).2.Alike (conclude claimed now q done').2 := by
  obtain ⟨outcome, s⟩ := done
  obtain ⟨outcome', s'⟩ := done'
  have hupdates : JobUpdate.substantial s.updates = JobUpdate.substantial s'.updates :=
    congrArg WorkState.updates hstate
  have hqueue := q.outline_foldl_update claimed.job.id s.updates
  rw [hupdates, ← q.outline_foldl_update] at hqueue
  cases outcome with
  | none =>
    cases outcome' with
    | none => exact ⟨.crashed, shift_alike hqueue hstate⟩
    | some outcome' => cases houtcome
  | some outcome =>
    cases outcome' with
    | none => cases houtcome
    | some outcome' =>
      exact close_alike hqueue (Option.some.inj houtcome) hstate claimed now

/-- What the encoder's process writes reaches neither the message nor the code of an error, nor
anything else that a job, a record or the queue shows besides the log and the details. -/
theorem finish_alike (w : Workshop) (encode' : Launch → EncoderReport) (claimed : ClaimedJob)
    (q : Queue) (traces : Traces) (alike : ∀ l, (w.encode l).Alike (encode' l)) :
    (w.finish claimed q traces).1.Alike ((w.withEncoder encode').finish claimed q traces).1 ∧
      (w.finish claimed q traces).2.Alike
        ((w.withEncoder encode').finish claimed q traces).2 := by
  obtain ⟨houtcome, hstate⟩ := Prod.ext_iff.1 (process_alike alike claimed traces)
  rw [finish_eq_conclude, finish_eq_conclude]
  exact conclude_alike houtcome hstate claimed w.now q

/-- A worker whose encoder writes a line and fails. -/
def failingWith (line : String) : Workshop :=
  steady.withEncoder fun _ =>
    ⟨[.log line], none, .error (.encodingFailed "FFmpeg exited with status 1" [line] (some 1))⟩

theorem finish_alike_of_failing :
    let run line := (failingWith line).finish momentJob momentQueue ⟨[], [], .empty, false⟩
    (run "Invalid data found").1.Alike (run "Invalid argument").1 ∧
      (run "Invalid data found").2.Alike (run "Invalid argument").2 ∧
      (run "Invalid data found").1.job?.map Job.status = some .error ∧
      (run "Invalid data found").1.job?.map Job.logsTail ≠
        (run "Invalid argument").1.job?.map Job.logsTail := by
  have h := finish_alike (failingWith "Invalid data found") (failingWith "Invalid argument").encode
    momentJob momentQueue ⟨[], [], .empty, false⟩ fun _ => ⟨rfl, rfl, rfl⟩
  exact ⟨h.1, h.2, by decide +kernel, by decide +kernel⟩

end Workshop

end RenderGateway
