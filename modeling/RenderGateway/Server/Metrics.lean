import RenderGateway.Http.Status
import RenderGateway.Json.Reader
import RenderGateway.Render.Record

/-!
# Metrics

What the gateway counts. Labels of paths do not tell jobs and files apart, so
that their number stays small. Counters grow and gauges are set; how long things
take is recorded elsewhere.
-/

namespace RenderGateway

inductive MetricKind
  | counter
  | histogram
  | gauge
deriving DecidableEq, Repr

namespace MetricKind

def name : MetricKind → String
  | counter => "counter"
  | histogram => "histogram"
  | gauge => "gauge"

end MetricKind

/-- One thing recorded: for a counter the growth, for a gauge the new value. -/
structure Measure where
  kind : MetricKind
  name : String
  labels : List (String × String)
  amount : Nat
deriving DecidableEq, Repr

namespace Measure

def count (name : String) (labels : List (String × String)) : Measure := ⟨.counter, name, labels, 1⟩

/-- Whether a segment of a path is a number or has the form of a UUID. -/
def isIdentifier (segment : List Char) : Bool :=
  (segment ≠ [] && segment.all Char.isDigit) ||
    (segment.length = 36 && segment.count '-' = 4 &&
      segment.all fun c => c = '-' || (Json.hexValue? c).isSome)

/-- The label of a segment at an index, behind the segment before it. -/
def segmentLabel (parent segment : List Char) (index : Nat) : List Char :=
  if parent = "jobs".toList ∧ segment ≠ [] then ":id".toList
  else if (parent = "uploads".toList ∨ parent = "outputs".toList) ∧ index = 2 ∧ segment ≠ [] then
    ":file".toList
  else if isIdentifier segment then ":id".toList
  else segment

/-- The labels of the segments from an index on, behind a segment. -/
def segmentLabels : List Char → Nat → List (List Char) → List (List Char)
  | _, _, [] => []
  | parent, index, segment :: rest =>
    segmentLabel parent segment index :: segmentLabels segment (index + 1) rest

/-- The label of a path. -/
def pathLabel (path : String) : String :=
  String.ofList (['/'].intercalate (segmentLabels [] 0 (path.toList.splitOn '/')))

/-- The labels of a request that was answered. -/
def requestLabels (method path : String) (status : HttpStatus) : List (String × String) :=
  [("method", method), ("path", pathLabel path), ("status", toString status.code)]

/-- What is recorded for a request that was answered in a number of nanoseconds. -/
def ofRequest (method path : String) (status : HttpStatus) (elapsed : Nat) : List Measure :=
  let labels := requestLabels method path status
  [count "rgate_http_requests_total" labels,
   ⟨.histogram, "rgate_http_request_duration_seconds", labels, elapsed⟩]

def ofSubmission (endpoint : String) : List Measure :=
  [count "rgate_jobs_submitted_total" [("endpoint", endpoint)]]

def ofUpload (size : Nat) : List Measure :=
  [count "rgate_uploads_total" [], ⟨.counter, "rgate_upload_bytes_total", [], size⟩]

def ofRateLimit (path : String) : List Measure :=
  [count "rgate_rate_limit_hits_total" [("endpoint", pathLabel path)]]

def ofEnqueue : List Measure := [count "rgate_jobs_enqueued_total" []]

def ofFinish (status : JobStatus) : List Measure :=
  [count "rgate_jobs_finished_total" [("status", status.name)]]

def ofFailure (r : FailureRecord) : List Measure :=
  [count "rgate_job_errors_total" [("code", r.fault.code.name), ("stage", r.stage.name)]]

def ofQueueLength (length : Nat) : List Measure := [⟨.gauge, "rgate_queue_length", [], length⟩]

end Measure

/-- The values of counters and gauges. -/
abbrev Metrics := List Measure

namespace Metrics

/-- Records one thing. -/
def add (metrics : Metrics) (m : Measure) : Metrics :=
  match m.kind with
  | .histogram => metrics
  | kind =>
    let same := fun (other : Measure) => other.name = m.name && other.labels = m.labels
    if metrics.any same then
      metrics.map fun other =>
        if same other then
          { other with amount := if kind = .gauge then m.amount else other.amount + m.amount }
        else other
    else metrics ++ [m]

def record (metrics : Metrics) (ms : List Measure) : Metrics := ms.foldl add metrics

def escapedLabel (value : String) : String :=
  String.ofList (value.toList.flatMap fun c =>
    if c = '"' || c = '\\' then ['\\', c] else if c = '\n' then ['\\', 'n'] else [c])

def labelsText : List (String × String) → String
  | [] => ""
  | labels =>
    let items := labels.map fun (name, value) => name ++ "=\"" ++ escapedLabel value ++ "\""
    "\x7b" ++ String.intercalate "," items ++ "\x7d"

def line (m : Measure) : String := s!"{m.name}{labelsText m.labels} {m.amount}\n"

/-- The text of all values, those of one name together. -/
def text (metrics : Metrics) : String :=
  let names := (metrics.map fun m => (m.name, m.kind)).eraseDups
  String.join (names.map fun (name, kind) =>
    let values := metrics.filter fun m => m.name = name
    s!"# TYPE {name} {kind.name}\n{String.join (values.map line)}\n")

end Metrics

end RenderGateway
