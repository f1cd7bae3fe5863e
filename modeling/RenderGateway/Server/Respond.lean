import RenderGateway.Server.Api
import RenderGateway.Server.Route
import RenderGateway.Server.StaticFile

/-!
# Responses of the gateway

A request is answered by its route. Around that stand the rules for all requests:
the limit of bodies, the quota of clients, one form for all errors, a record of
what was answered, and headers that browsers and callers rely on.
-/

namespace RenderGateway

namespace Api

/-- The response of a route that is asked for in the right way. -/
def handle (g : Gateway) (m : Moment) (r : Request) : Route → Handled
  | .upload => upload g m r
  | .execute => execute g m r
  | .executePlan => executePlan g m r
  | .job id =>
    match Percent.decode? id with
    | some id => (job g id).map fun response => (response, g)
    | none => .ok (⟨.badRequest, [], .empty⟩, g)
  | .planSchema => .ok (planSchema, g)
  | .health => .ok (health g m, g)
  | .metrics => .ok (.ofText .ok g.metrics.text, g)
  | .uploadedFile path => .ok (StaticFile.serve g.uploads path r.headers, g)
  | .renderedFile path => .ok (StaticFile.serve g.outputs path r.headers, g)

/-- The response of a route to a method. A request that fails changes nothing. -/
def ofRoute (g : Gateway) (m : Moment) (r : Request) (route : Route) : Response × Gateway :=
  if !route.allows r.method then (⟨.methodNotAllowed, [("allow", route.allowed)], .empty⟩, g)
  else
    let (response, g) := match handle g m r route with
      | .ok handled => handled
      | .error e => (e.response g.settings.hidesFaults, g)
    (if r.method = "HEAD" then response.withoutBody else response, g)

/-- The path of a request to the programming interface, seen from inside it. -/
def innerPath (path : String) : String :=
  ((Text.afterPrefix? "/api".toList path.toList).map String.ofList).getD path

/-- Spends one request of the quota of a client; a client that cannot be told has none. -/
def spend (g : Gateway) (m : Moment) (r : Request) : Bool × Gateway :=
  match RateLimit.clientOf? r.headers with
  | some client =>
    let (admitted, quota) := g.quota.spend client m.clock
    (admitted, { g with quota })
  | none => (true, g)

/-- The response to a client that has spent its quota. -/
def limited (g : Gateway) : Response :=
  let response := ServerError.rateLimited.response g.settings.hidesFaults
  { response with headers := response.headers ++ [("retry-after", "1")] }

/-- The route of a request, if it is served. -/
def routeOf? (g : Gateway) (r : Request) : Option Route :=
  (Route.ofPath? r.path).filter fun route => route ≠ .metrics || g.servesMetrics

/-- The response of the route that a request asks for. -/
def routed (g : Gateway) (m : Moment) (r : Request) : Response × Gateway :=
  match routeOf? g r with
  | none => ((ServerError.notFound "Route not found").response g.settings.hidesFaults, g)
  | some route =>
    if route.isLimited then
      let (admitted, g) := spend g m r
      if admitted then ofRoute g m r route
      else (limited g, g.record (Measure.ofRateLimit (innerPath r.path)))
    else ofRoute g m r route

/-- Whether a request announces a body that is too large. -/
def announcesTooMuch (g : Gateway) (r : Request) : Bool :=
  ((r.headers.text? "content-length").bind (Numeral.natBelow? (2 ^ 64))).any
    fun length => g.settings.maxBodySize.toNat < length

/-- The message for an error that is known by its status only. -/
def statusMessage (s : HttpStatus) : String :=
  if s = .notFound then "Not found"
  else if s = .methodNotAllowed then "Method not allowed"
  else if s = .payloadTooLarge then "Request body too large"
  else s.name?.getD "Request failed"

/-- Gives an error the form that all errors have. -/
def inErrorForm (r : Response) : Response :=
  if !r.status.isError || r.isJson then r
  else
    let others := r.headers.filter fun field =>
      field.1 ≠ "content-type" && field.1 ≠ "content-length"
    let report := Response.ofFault r.status (.ofMessage (.ofStatus r.status) (statusMessage r.status))
    { report with headers := report.headers ++ others }

/-- What browsers are told to be careful about. -/
def securityHeaders : Headers :=
  [("x-content-type-options", "nosniff"),
   ("x-frame-options", "DENY"),
   ("x-xss-protection", "1; mode=block"),
   ("strict-transport-security", "max-age=31536000; includeSubDomains"),
   ("referrer-policy", "strict-origin-when-cross-origin"),
   ("permissions-policy", "camera=(), geolocation=(), microphone=(), payment=(), usb=()"),
   ("x-permitted-cross-domain-policies", "none")]

/-- The id of a request: the one that the caller gives, unless it is empty or too long. -/
def requestId (m : Moment) (r : Request) : String :=
  ((r.headers.text? "x-request-id").filter fun id => id ≠ "" ∧ id.length ≤ 128).getD m.requestId

/-- Adds the headers that every response has. -/
def withCommonHeaders (g : Gateway) (m : Moment) (r : Request) (response : Response) : Response :=
  let headers := response.headers.setDefault "content-length" (toString response.body.bytes.size)
  let headers := securityHeaders.foldl (fun hs field => hs.set field.1 field.2) headers
  let headers := headers.set "x-request-id" (requestId m r)
  { response with headers := headers ++ (CrossOrigin.ofOrigins g.settings.origins).headers r.headers }

/-- The response to a request, and the gateway afterwards. -/
def respond (g : Gateway) (m : Moment) (r : Request) : Response × Gateway :=
  if r.method = "OPTIONS" then
    ((CrossOrigin.ofOrigins g.settings.origins).preflight r.headers, g)
  else
    let (response, g) :=
      if announcesTooMuch g r then (⟨.payloadTooLarge, [], .empty⟩, g) else routed g m r
    let response := inErrorForm response
    let g := g.record (Measure.ofRequest r.method r.path response.status 0)
    (withCommonHeaders g m r response, g)

end Api

end RenderGateway
