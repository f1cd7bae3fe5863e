import RenderGateway.Http.Message
import RenderGateway.Http.Percent

/-!
# Routes

Which requests the gateway answers. A path belongs to at most one route, and a
route is asked for by its methods only.
-/

namespace RenderGateway

inductive Route
  | upload
  | execute
  | executePlan
  /-- A job, by its id as the path writes it. -/
  | job (id : String)
  | planSchema
  | health
  | metrics
  | uploadedFile (path : String)
  | renderedFile (path : String)
deriving DecidableEq, Repr

namespace Route

/-- The path behind a directory of files. -/
def behind? (directory path : String) : Option String :=
  if path = directory then some ""
  else (Text.afterPrefix? (directory ++ "/").toList path.toList).map String.ofList

/-- The id in the path of a job. -/
def jobId? (path : String) : Option String :=
  ((Text.afterPrefix? "/api/jobs/".toList path.toList).filter fun id =>
    id ≠ [] ∧ '/' ∉ id).map String.ofList

def ofPath? (path : String) : Option Route :=
  if path = "/api/upload" then some upload
  else if path = "/api/execute" then some execute
  else if path = "/api/execute-plan" then some executePlan
  else if path = "/api/plan-schema" then some planSchema
  else if path = "/api/health" then some health
  else if path = "/metrics" then some metrics
  else
    ((jobId? path).map job).or <|
    ((behind? "/uploads" path).map uploadedFile).or <|
    (behind? "/outputs" path).map renderedFile

/-- Whether the requests of a client on the route are limited. -/
def isLimited : Route → Bool
  | upload | execute | executePlan | job _ | planSchema => true
  | _ => false

def isReading : Route → Bool
  | upload | execute | executePlan => false
  | _ => true

/-- Whether a method asks for the route. -/
def allows (r : Route) (method : String) : Bool :=
  if r.isReading then method = "GET" || method = "HEAD" else method = "POST"

/-- The methods that ask for the route. -/
def allowed (r : Route) : String := if r.isReading then "GET,HEAD" else "POST"

end Route

end RenderGateway
