import RenderGateway.Fault
import RenderGateway.Http.Status
import RenderGateway.Json.Writer
import RenderGateway.Text.Basic

/-!
# Requests and responses

Header fields are pairs of a name and a value in their order; names do not
distinguish letter case and are kept in lower case in responses.
-/

namespace RenderGateway

abbrev Headers := List (String × String)

namespace Headers

/-- The first field of a name. -/
def get? (hs : Headers) (name : String) : Option String :=
  (hs.find? fun field => Text.lower field.1 = name).map Prod.snd

def contains (hs : Headers) (name : String) : Bool := (hs.get? name).isSome

/-- Replaces the fields of a name by one. -/
def set (hs : Headers) (name value : String) : Headers :=
  (hs.filter fun field => field.1 ≠ name) ++ [(name, value)]

/-- Adds a field unless there is one of its name. -/
def setDefault (hs : Headers) (name value : String) : Headers :=
  if hs.contains name then hs else hs ++ [(name, value)]

/-- Characters of values that are read as text. -/
def isTextChar (c : Char) : Bool := c = '\t' || (0x20 ≤ c.toNat && c.toNat ≤ 0x7E)

/-- The first field of a name, if its value is a text. -/
def text? (hs : Headers) (name : String) : Option String :=
  (hs.get? name).filter fun value => value.toList.all isTextChar

end Headers

structure Request where
  method : String
  /-- A path, perhaps with a query. -/
  target : String
  headers : Headers
  body : ByteArray

namespace Request

/-- The target without its query. -/
def path (r : Request) : String := String.ofList (r.target.toList.takeWhile (· ≠ '?'))

end Request

inductive ResponseBody
  | empty
  | json (document : Json)
  | text (content : String)
  | file (content : ByteArray)

namespace ResponseBody

def bytes : ResponseBody → ByteArray
  | empty => .empty
  | json document => document.write.toUTF8
  | text content => content.toUTF8
  | file content => content

end ResponseBody

structure Response where
  status : HttpStatus
  headers : Headers
  body : ResponseBody

namespace Response

def ofJson (status : HttpStatus) (document : Json) : Response :=
  ⟨status, [("content-type", "application/json")], .json document⟩

def ofText (status : HttpStatus) (content : String) : Response :=
  ⟨status, [("content-type", "text/plain; charset=utf-8")], .text content⟩

/-- The report of a fault. -/
def ofFault (status : HttpStatus) (fault : Fault) : Response :=
  ofJson status (.object [("ok", .bool false), ("error", fault.toJson)])

def isJson (r : Response) : Bool :=
  (r.headers.text? "content-type").any fun value => Text.hasPrefix "application/json" value

/-- The response to a request that asks for the header only. -/
def withoutBody (r : Response) : Response :=
  { r with
    headers := r.headers.setDefault "content-length" (toString r.body.bytes.size)
    body := .empty }

end Response

end RenderGateway
