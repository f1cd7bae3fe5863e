import RenderGateway.Command.Compile
import RenderGateway.EncoderRun
import RenderGateway.Render.Handling
import RenderGateway.Render.OutputName
import RenderGateway.Render.Settings
import RenderGateway.Store.Shelf

/-!
# The work on a job

A job that a worker has claimed is checked, routed and then either handed back
with its command or rendered: its sources are brought to disk, the command is
compiled and run, and the output goes into the store. The work ends with one
outcome; every failure in it leaves a record.
-/

namespace RenderGateway

/-- A command handed to the encoder. -/
structure Launch where
  command : CompiledCommand
  limit : Duration
  keptLines : UInt64
deriving Repr

/-- What a run of the encoder showed, left at its output's place and ended with. -/
structure EncoderReport where
  events : List RunEvent
  written : Option ByteArray
  result : Except MediaFailure Unit

/-- What the work on a job needs. -/
structure Workshop where
  settings : RenderSettings
  policy : RetryPolicy
  /-- The engines to choose from, by priority. -/
  engines : List Engine
  outputs : FileStore
  /-- An attempt to bring a source to a directory, with what has been rendered so
  far: the source's number, its reference and the number of the attempt, from 1.
  The answer is a path. -/
  fetch : Shelf → String → Nat → String → UInt32 → Except RenderFailure String
  encode : Launch → EncoderReport
  /-- The answer of the store when it is to take in a file from among some others:
  the file's place there, its name and its type. -/
  takeIn : Shelf → Table ByteArray → String → String → String →
      Except StorageError (StoredFile × Shelf × Table ByteArray) :=
    fun shelf sources => shelf.takeIn outputs true sources
  /-- Whether the worker is told to stop once it has seen a job like this. -/
  stopsAt : Job → Bool
  recordId : Nat → String
  now : Instant
  /-- What a render takes, in milliseconds. -/
  elapsed : UInt64

/-- What the work on jobs leaves behind. -/
structure Traces where
  records : List FailureRecord
  launches : List Launch
  shelf : Shelf
  stopping : Bool

/-- A request to something outside the worker. -/
inductive Call
  /-- An attempt to bring a source to disk, and the answer. -/
  | fetch (index : Nat) (url : String) (attempt : UInt32) (answer : Except RenderFailure String)
  | encode (launch : Launch)

/-- The state of the work on a job: the job's record, the changes sent to the
queue, the calls in their order, and the traces. -/
structure WorkState where
  job : Job
  updates : List JobUpdate
  calls : List Call
  traces : Traces

/-- Why the work on a job ends early. -/
inductive WorkEnd
  | failed (fault : Fault)
  /-- A time limit that is no duration stops the worker. -/
  | crashed

abbrev Work := ExceptT WorkEnd (StateM WorkState)

namespace Work

variable (w : Workshop)

/-- Sends a change of the job to the queue. -/
def send (u : JobUpdate) : Work Unit := modify fun s =>
  let job := (s.job.apply u).toOption.getD s.job
  { s with
    job
    updates := s.updates ++ [u]
    traces := { s.traces with stopping := s.traces.stopping || w.stopsAt job } }

/-- Adds a line to the job's log. -/
def note (line : String) : Work Unit := send w (.logs [line] w.settings.keptLines.toNat)

def call (c : Call) : Work Unit := modify fun s => { s with calls := s.calls ++ [c] }

/-- Decides on a failure and records the decision. -/
def handle (e : RenderFailure) (stage : Stage) (attempt : UInt32) : Work FailureRecord := do
  let s ← get
  let record := e.handle w.policy ⟨s.job.id, s.job.projectId, stage, attempt⟩
    (w.recordId s.traces.records.length) w.now
  set { s with traces := { s.traces with records := s.traces.records ++ [record] } }
  return record

/-- Ends the work with a failure that no other attempt follows. -/
def abort (stage : Stage) (e : RenderFailure) : Work α := do
  let record ← handle w e stage 1
  throw (.failed record.fault)

def orAbort (stage : Stage) (result : Except ε α) (failure : ε → RenderFailure) : Work α :=
  match result with
  | .ok a => return a
  | .error e => abort w stage (failure e)

def directory : Work String :=
  return FileName.join w.settings.workDirectory (← get).job.id

/-- One attempt to bring a source to disk; a failure is recorded. -/
def attemptFetch (index : Nat) (url : String) (attempt : UInt32) :
    Work (Except FailureRecord String) := do
  let directory := FileName.join (← directory w) "inputs"
  let answer := w.fetch (← get).traces.shelf directory index url attempt
  call (.fetch index url attempt answer)
  match answer with
  | .ok path => return .ok path
  | .error e => return .error (← handle w e .fetch attempt)

/-- Waits for the next attempt, unless the worker is told to stop. -/
def awaitRetry (url : String) (attempt : UInt32) (record : FailureRecord) (delay : UInt64) :
    Work Unit := do
  note w s!"Fetch attempt {attempt} for {url} failed ({record.fault.message}), retrying in {delay}ms"
  if (← get).traces.stopping then abort w .fetch (.media .cancelled)

/-- Brings one source to disk, with a number of retries at most. -/
def fetchFrom (index : Nat) (url : String) : Nat → UInt32 → Work String
  | 0, attempt => do
    match ← attemptFetch w index url attempt with
    | .ok path => return path
    | .error record => throw (.failed record.fault)
  | retries + 1, attempt => do
    match ← attemptFetch w index url attempt with
    | .ok path => return path
    | .error record =>
      match record.recovery with
      | .abort => throw (.failed record.fault)
      | .retry delay =>
        awaitRetry w url attempt record delay
        fetchFrom index url retries (attempt + 1)

/-- Brings every source to disk, each from its first attempt. -/
def fetchAll (urls : List String) : Work (List (String × String)) :=
  urls.zipIdx.mapM fun (url, index) => do
    return (url, ← fetchFrom w index url w.policy.maxRetries.toNat 1)

/-- The changes that the events of a run make to a job: progress that does not
exceed what has been sent is left out. -/
def eventUpdates (total : Int64) (keep : Nat) : UInt8 → List RunEvent → List JobUpdate
  | _, [] => []
  | sent, .progress p :: events =>
    let percent := p.percent total
    if percent ≤ sent then eventUpdates total keep sent events
    else .progress percent :: eventUpdates total keep percent events
  | sent, .log line :: events => .logs [line] keep :: eventUpdates total keep sent events

/-- Hands a command to the encoder. -/
def launch (l : Launch) : Work EncoderReport := do
  call (.encode l)
  modify fun s => { s with traces := { s.traces with launches := s.traces.launches ++ [l] } }
  return w.encode l

/-- Runs a command and passes on what it shows. The answer is the file that it
has left at the place of its output. -/
def encode (command : CompiledCommand) (duration : Int) : Work (Option ByteArray) := do
  match w.settings.timeLimit? duration with
  | none => throw .crashed
  | some limit =>
    let report ← launch w ⟨command, limit, w.settings.keptLines⟩
    for u in eventUpdates command.duration w.settings.keptLines.toNat 0 report.events do
      send w u
    orAbort w .encode report.result .media
    return report.written

/-- Takes the output into the store. -/
def store (output : String) (written : Option ByteArray) (name mimeType : String) :
    Work StoredFile := do
  let s ← get
  let sources := (written.map fun bytes => (output, bytes)).toList
  let (file, shelf, _) ←
    orAbort w .store (w.takeIn s.traces.shelf sources output name mimeType) .storage
  modify fun s => { s with traces := { s.traces with shelf } }
  return file

/-- Renders a plan with the encoder. -/
def render (p : Plan) (name : String) : Work JobOutcome := do
  let paths ← fetchAll w p.assetUrls
  let output := FileName.join (← directory w) s!"output.{p.format.container.extension}"
  let localPlan := p.localized fun url => List.lookup url paths
  let command ← orAbort w .plan (localPlan.compile .serverFfmpeg output) .media
  let written ← encode w command p.outputDuration
  let file ← store w output written name p.format.container.mimeType
  return .rendered ⟨file.publicUrl, file.size, w.elapsed⟩

/-- Hands a plan back with its command, which nothing runs. -/
def exportPlan (p : Plan) (d : Routing) (name : String) : Work JobOutcome := do
  let command ← orAbort w .plan (p.compile .planExport name) .media
  return .settled ⟨.planExport, d.fallbackChain, command.program, command.args, p⟩

/-- The work on a plan. -/
def perform (p : Plan) (outputName : Option String) : Work JobOutcome := do
  let _ ← orAbort w .plan p.check fun issues => .refused (.plan issues)
  let d := p.route w.engines
  note w s!"Routed to {d.selected.name} ({d.fallbackChain.length} engine(s) rejected)"
  send w (.route d)
  let quality := p.format.quality.getD w.settings.defaultQuality
  let p := { p with format := { p.format with quality := some quality } }
  let name := OutputName.ofJob outputName (← get).job.id p.format.container
  match d.selected with
  | .planExport => exportPlan w p d name
  | .serverFfmpeg => render w p name
  | engine => abort w .plan (.media (.engineWithoutCompiler engine))

end Work

namespace Workshop

/-- The work on a claimed job: its outcome, unless the worker crashed, and the
state that it leaves. -/
def process (w : Workshop) (claimed : ClaimedJob) (traces : Traces) :
    Option JobOutcome × WorkState :=
  match (Work.perform w claimed.plan claimed.outputName).run ⟨claimed.job, [], [], traces⟩ with
  | (.ok outcome, s) => (some outcome, s)
  | (.error (.failed fault), s) => (some (.failed fault), s)
  | (.error .crashed, s) => (none, s)

end Workshop

end RenderGateway
