import RenderGateway.Settings.Environment
import RenderGateway.Text.Basic
import RenderGateway.Time.Duration

/-!
# Settings of the client
-/

namespace RenderGateway

structure ClientSettings where
  /-- The address of the gateway, which paths are appended to. -/
  baseUrl : String
  timeLimit : Duration
  /-- Retries of requests that change nothing. -/
  maxRetries : UInt32
deriving DecidableEq, Repr

namespace ClientSettings

def default : ClientSettings := ⟨"http://localhost:8787", .ofMilliseconds 300000, 2⟩

def withBaseUrl (s : ClientSettings) (url : String) : ClientSettings :=
  { s with baseUrl := Text.dropEndSlashes url }

def ofEnvironment (e : Environment) : ClientSettings where
  baseUrl := ((e.get? "RGATE_URL").map Text.dropEndSlashes).getD default.baseUrl
  timeLimit := ((e.uint64? "RGATE_TIMEOUT_SECS").map fun n =>
    Duration.ofMilliseconds (n.toNat * 1000)).getD default.timeLimit
  maxRetries := (e.uint32? "RGATE_RETRIES").getD default.maxRetries

end ClientSettings

end RenderGateway
