import RenderGateway.Http.Message

/-!
# Requests across origins

What browsers are told about requests from pages of other origins. Either every
origin may call, or the listed ones may, with credentials.
-/

namespace RenderGateway

inductive CrossOrigin
  | anyone
  | listed (origins : List String)
deriving DecidableEq, Repr

namespace CrossOrigin

/-- An origin that a header cannot hold is left out. -/
def ofOrigins (origins : List String) : CrossOrigin :=
  if origins = [] ∨ "*" ∈ origins then anyone
  else listed (origins.filter fun origin => origin.toList.all Headers.isTextChar)

/-- The header that names the origin that may call. -/
def originHeaders (c : CrossOrigin) (request : Headers) : Headers :=
  match c with
  | anyone => [("access-control-allow-origin", "*")]
  | listed origins =>
    let named := ((request.get? "origin").filter fun origin => origin ∈ origins).toList.map
      fun origin => ("access-control-allow-origin", origin)
    named ++ [("access-control-allow-credentials", "true")]

def varying : String × String :=
  ("vary", "origin, access-control-request-method, access-control-request-headers")

/-- The headers of a response. -/
def headers (c : CrossOrigin) (request : Headers) : Headers :=
  let exposed := match c with
    | anyone => "*"
    | listed _ => "content-length,content-type,x-request-id"
  varying :: c.originHeaders request ++ [("access-control-expose-headers", exposed)]

/-- The response to a browser that asks before it calls. -/
def preflight (c : CrossOrigin) (request : Headers) : Response :=
  let (methods, fields) := match c with
    | anyone => ("*", "*")
    | listed _ => ("GET,POST,OPTIONS", "content-type,accept,origin")
  { status := .ok
    headers := varying :: c.originHeaders request ++
      [("access-control-allow-methods", methods), ("access-control-allow-headers", fields),
       ("access-control-max-age", "600"), ("content-length", "0")]
    body := .empty }

end CrossOrigin

end RenderGateway
