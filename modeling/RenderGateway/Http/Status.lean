import RenderGateway.Fault

/-!
# Statuses of HTTP responses

Three-digit statuses, their registered names, and the correspondence between
error statuses and the categories of faults.
-/

namespace RenderGateway

/-- A three-digit status. -/
structure HttpStatus where
  code : Nat
  threeDigits : 100 ≤ code ∧ code < 1000
deriving DecidableEq, Repr

namespace HttpStatus

def ofNat? (n : Nat) : Option HttpStatus :=
  if h : 100 ≤ n ∧ n < 1000 then some ⟨n, h⟩ else none

def ok : HttpStatus := ⟨200, by decide⟩
def accepted : HttpStatus := ⟨202, by decide⟩
def badRequest : HttpStatus := ⟨400, by decide⟩
def unauthorized : HttpStatus := ⟨401, by decide⟩
def notFound : HttpStatus := ⟨404, by decide⟩
def methodNotAllowed : HttpStatus := ⟨405, by decide⟩
def payloadTooLarge : HttpStatus := ⟨413, by decide⟩
def tooManyRequests : HttpStatus := ⟨429, by decide⟩
def internalError : HttpStatus := ⟨500, by decide⟩
def badGateway : HttpStatus := ⟨502, by decide⟩

def isSuccess (s : HttpStatus) : Bool := s.code / 100 = 2

def isClientError (s : HttpStatus) : Bool := s.code / 100 = 4

def isServerError (s : HttpStatus) : Bool := s.code / 100 = 5

def isError (s : HttpStatus) : Bool := s.isClientError || s.isServerError

/-- The statuses in the public registry and their names. -/
def registry : List (Nat × String) :=
  [(100, "Continue"), (101, "Switching Protocols"), (102, "Processing"),
   (200, "OK"), (201, "Created"), (202, "Accepted"), (203, "Non Authoritative Information"),
   (204, "No Content"), (205, "Reset Content"), (206, "Partial Content"), (207, "Multi-Status"),
   (208, "Already Reported"), (226, "IM Used"),
   (300, "Multiple Choices"), (301, "Moved Permanently"), (302, "Found"), (303, "See Other"),
   (304, "Not Modified"), (305, "Use Proxy"), (307, "Temporary Redirect"),
   (308, "Permanent Redirect"),
   (400, "Bad Request"), (401, "Unauthorized"), (402, "Payment Required"), (403, "Forbidden"),
   (404, "Not Found"), (405, "Method Not Allowed"), (406, "Not Acceptable"),
   (407, "Proxy Authentication Required"), (408, "Request Timeout"), (409, "Conflict"),
   (410, "Gone"), (411, "Length Required"), (412, "Precondition Failed"),
   (413, "Payload Too Large"), (414, "URI Too Long"), (415, "Unsupported Media Type"),
   (416, "Range Not Satisfiable"), (417, "Expectation Failed"), (418, "I'm a teapot"),
   (421, "Misdirected Request"), (422, "Unprocessable Entity"), (423, "Locked"),
   (424, "Failed Dependency"), (426, "Upgrade Required"), (428, "Precondition Required"),
   (429, "Too Many Requests"), (431, "Request Header Fields Too Large"),
   (451, "Unavailable For Legal Reasons"),
   (500, "Internal Server Error"), (501, "Not Implemented"), (502, "Bad Gateway"),
   (503, "Service Unavailable"), (504, "Gateway Timeout"), (505, "HTTP Version Not Supported"),
   (506, "Variant Also Negotiates"), (507, "Insufficient Storage"), (508, "Loop Detected"),
   (510, "Not Extended"), (511, "Network Authentication Required")]

def name? (s : HttpStatus) : Option String := List.lookup s.code registry

/-- The number and the name of a status. -/
def text (s : HttpStatus) : String :=
  let name := s.name?.getD "<unknown status code>"
  s!"{s.code} {name}"

end HttpStatus

namespace FaultCode

/-- The status of a response that reports a fault. -/
def status : FaultCode → HttpStatus
  | input | plan | invalidJson | invalidContentType => .badRequest
  | auth => .unauthorized
  | notFound => .notFound
  | network => .badGateway
  | ffmpeg | storage | http | internal => .internalError

/-- The category of an error that is known by its status only. -/
def ofStatus (s : HttpStatus) : FaultCode :=
  if s.code = 404 then notFound
  else if s.code = 401 ∨ s.code = 403 then auth
  else if s.code = 405 ∨ s.code = 429 then http
  else if s.code = 502 ∨ s.code = 504 then network
  else if s.isClientError then input
  else internal

end FaultCode

end RenderGateway
