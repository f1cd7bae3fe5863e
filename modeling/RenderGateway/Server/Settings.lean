import RenderGateway.Settings.Environment
import RenderGateway.Text.Basic

/-!
# Settings of the server
-/

namespace RenderGateway

structure ServerSettings where
  host : String
  port : UInt16
  /-- The origins that browsers may call from. -/
  origins : List String
  /-- Requests a second for each client. -/
  rateLimit : UInt32
  /-- The largest body of a request, in bytes. -/
  maxBodySize : UInt64
  environment : String
  metricsEnabled : Bool
deriving DecidableEq, Repr

namespace ServerSettings

def default : ServerSettings where
  host := "0.0.0.0"
  port := 8787
  origins := ["*"]
  rateLimit := 20
  maxBodySize := 512 * 1024 * 1024
  environment := "development"
  metricsEnabled := true

/-- The nonblank parts of a list, which commas separate. -/
def parseOrigins (list : String) : List String :=
  ((Text.split ',' list).map Text.trim).filter (· ≠ "")

def ofEnvironment (e : Environment) : ServerSettings where
  host := e.text "API_HOST" default.host
  port := (e.uint16? "API_PORT").getD default.port
  origins := ((e.get? "CORS_ORIGINS").map parseOrigins).getD default.origins
  rateLimit := (e.uint32? "RATE_LIMIT_RPS").getD default.rateLimit
  maxBodySize := (e.uint64? "MAX_UPLOAD_SIZE").getD default.maxBodySize
  environment := e.text "ENVIRONMENT" default.environment
  metricsEnabled :=
    ((e.get? "METRICS_ENABLED").map fun v => v = "true" || v = "1").getD default.metricsEnabled

def isProduction (s : ServerSettings) : Bool := Text.lower s.environment = "production"

/-- Whether the wording of the server's own faults is kept from callers. -/
def hidesFaults (s : ServerSettings) : Bool := s.environment = "production"

def address (s : ServerSettings) : String := s!"{s.host}:{s.port}"

end ServerSettings

end RenderGateway
