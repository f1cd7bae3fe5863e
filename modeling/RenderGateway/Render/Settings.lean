import RenderGateway.Engine
import RenderGateway.Plan.Format
import RenderGateway.Render.Retry
import RenderGateway.Settings.Environment
import RenderGateway.Store.Name
import RenderGateway.Time.Duration

/-!
# Settings of the renderer

Where it works, which engines it may use and in what order, how long a render
may take, how patiently sources are fetched and how much of a log is kept.
-/

namespace RenderGateway

structure RenderSettings where
  workDirectory : String
  /-- By priority. -/
  engines : List Engine
  /-- An encoder other than the one on the search path. -/
  encoder : Option String
  /-- The time limit of a render as a multiple of the output's duration. -/
  limitFactor : Binary64
  leastLimit : Duration
  greatestLimit : Duration
  maxRetries : UInt32
  /-- In milliseconds. -/
  retryBase : UInt64
  fetchLimit : Duration
  keptLines : UInt64
  defaultQuality : Quality
deriving Repr

namespace RenderSettings

def ofSecondCount (n : UInt64) : Duration := ⟨n.toNat * Duration.perSecond⟩

def default : RenderSettings where
  workDirectory := "/tmp/rgate"
  engines := [.serverFfmpeg, .planExport]
  encoder := none
  limitFactor := 10
  leastLimit := ofSecondCount 120
  greatestLimit := ofSecondCount 7200
  maxRetries := 3
  retryBase := 500
  fetchLimit := ofSecondCount 120
  keptLines := 40
  defaultQuality := .medium

/-- The engines named in a list, which commas separate; unknown names are left out. -/
def parseEngines (list : String) : List Engine :=
  (Text.split ',' list).filterMap fun name => (Engine.ofText name).toOption

def ofEnvironment (e : Environment) : RenderSettings where
  workDirectory :=
    e.text "WORKER_WORK_DIR" (FileName.join e.temporaryDirectory "rgate")
  engines := (((e.get? "RENDER_ENGINES").map parseEngines).filter (· ≠ [])).getD default.engines
  encoder := (e.get? "FFMPEG_PATH").filter fun path => !Text.isBlankText path
  limitFactor := ((e.binary64? "RENDER_TIMEOUT_FACTOR").filter (0 < ·)).getD default.limitFactor
  leastLimit := ((e.uint64? "RENDER_TIMEOUT_MIN_SECS").map ofSecondCount).getD default.leastLimit
  greatestLimit :=
    ((e.uint64? "RENDER_TIMEOUT_MAX_SECS").map ofSecondCount).getD default.greatestLimit
  maxRetries := (e.uint32? "FETCH_MAX_RETRIES").getD default.maxRetries
  retryBase := (e.uint64? "FETCH_RETRY_BASE_MS").getD default.retryBase
  fetchLimit := ((e.uint64? "FETCH_TIMEOUT_SECS").map ofSecondCount).getD default.fetchLimit
  keptLines := ((e.uint64? "LOGS_TAIL_LINES").filter (0 < ·)).getD default.keptLines
  defaultQuality :=
    ((e.get? "DEFAULT_QUALITY").bind fun s => (Quality.ofText s).toOption).getD
      default.defaultQuality

/-- The longest wait between two attempts, in milliseconds. -/
def maxRetryDelay : UInt64 := 30000

def retryPolicy (s : RenderSettings) : RetryPolicy := ⟨s.maxRetries, s.retryBase, maxRetryDelay⟩

/-- A duration in milliseconds as a number of seconds, times the factor. -/
def scaledSeconds (s : RenderSettings) (duration : Int) : Binary64 :=
  Binary64.ofInt (max duration 0) / 1000 * s.limitFactor

/-- The time limit of a render of the given duration in milliseconds; none where
the scaled duration is not a duration. -/
def timeLimit? (s : RenderSettings) (duration : Int) : Option Duration :=
  (Duration.ofSeconds? (s.scaledSeconds duration)).map fun scaled =>
    max s.leastLimit (min scaled (max s.greatestLimit s.leastLimit))

/-- The engines that can run here, each once: those with an executor, and the
encoder's only if there is an encoder. -/
def usableEngines (s : RenderSettings) (encoderAvailable : Bool) : List Engine :=
  (s.engines.filter fun e =>
    e.hasServerExecutor && (e ≠ .serverFfmpeg || encoderAvailable)).foldl
      (fun usable e => if e ∈ usable then usable else usable ++ [e]) []

end RenderSettings

end RenderGateway
