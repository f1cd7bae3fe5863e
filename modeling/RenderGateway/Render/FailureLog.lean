import RenderGateway.Json.Reader
import RenderGateway.Json.Writer
import RenderGateway.Render.Record

/-!
# The log of failures

A text with one record a line. A record is one line whatever its texts contain,
since the written form of a text escapes line breaks.
-/

namespace RenderGateway.FailureLog

/-- The line of a record, with its end. -/
def line (r : FailureRecord) : String := r.toJson.write ++ "\n"

def append (log : String) (r : FailureRecord) : String := log ++ line r

/-- The record that a line holds. -/
def record? (line : String) : Option FailureRecord :=
  (Json.read? line).bind (FailureRecord.decoder .refused)

/-- The records of a log, unless some line holds none. -/
def records? (log : String) : Option (List FailureRecord) :=
  ((Text.split '\n' log).filter (· ≠ "")).mapM record?

end RenderGateway.FailureLog
