import RenderGateway.Http.MediaType
import RenderGateway.Text.Quoted

/-!
# Forms in parts

A form is a sequence of parts between boundary lines, each a block of header
fields, an empty line and content. Parts are read one at a time: a reader that
stops early never meets the faults behind it.
-/

namespace RenderGateway.FormData

inductive FormError
  /-- The form ends before its last boundary, or a boundary is followed by junk. -/
  | incomplete
  /-- A part, perhaps with a name, ends before a boundary. -/
  | incompletePart (name : Option String)
  | badHeader
deriving DecidableEq, Repr

def FormError.message : FormError → String
  | incomplete => "incomplete multipart stream"
  | incompletePart name =>
    let name := Text.quoted (name.getD "<unknown>")
    s!"field {name} received with incomplete data"
  | badHeader => "failed to read field headers"

structure Part where
  name : Option String
  fileName : Option String
  contentType : Option String
  content : List UInt8
deriving Repr

def ascii (s : String) : List UInt8 := s.toUTF8.toList

def lineEnd : List UInt8 := [13, 10]

/-- What precedes and what begins with the first occurrence of a pattern. -/
def find? (pattern : List UInt8) : List UInt8 → Option (List UInt8 × List UInt8)
  | [] => if pattern = [] then some ([], []) else none
  | b :: bs =>
    if pattern.isPrefixOf (b :: bs) then some ([], b :: bs)
    else (find? pattern bs).map fun (before, rest) => (b :: before, rest)

/-- What follows a given beginning. -/
def after? : List UInt8 → List UInt8 → Option (List UInt8)
  | [], bs => some bs
  | _ :: _, [] => none
  | p :: ps, b :: bs => if p = b then after? ps bs else none

/-- One header field: a token, a colon and a value without blanks around it. -/
def headerField? (line : List Char) : Option (String × String) := do
  let (name, value) ← Text.splitOnce? ':' line
  if !MediaType.isToken name || value.any fun c => c.toNat < 0x20 && c ≠ '\t' || c.toNat = 0x7F then none
  else
    let isBlank := fun c => c = ' ' || c = '\t'
    return (Text.lower (String.ofList name),
      String.ofList (Text.dropEndWhile isBlank (value.dropWhile isBlank)))

/-- The most header fields that a part may have. -/
def maxHeaderFields : Nat := 32

def headerFields? (block : List UInt8) : Option (List (String × String)) := do
  let text ← String.fromUTF8? ⟨block.toArray⟩
  let lines := (text.toList.splitOn '\n').map (Text.dropEndWhile (· = '\r'))
  let fields ← (lines.filter (· ≠ [])).mapM headerField?
  if maxHeaderFields < fields.length then none else some fields

def isSpace (c : Char) : Bool := c.isWhitespace || c = '\x0c'

/-- What follows a sign, with blanks before it. -/
def afterSign? (sign : Char) (cs : List Char) : Option (List Char) :=
  match cs.dropWhile isSpace with
  | c :: cs => if c = sign then some cs else none
  | [] => none

/-- A quoted value up to the first quote without a backslash before it. -/
def quotedValue? : List Char → Option (List Char)
  | [] => none
  | '"' :: _ => some []
  | '\\' :: '"' :: cs => (quotedValue? cs).map ('"' :: ·)
  | c :: cs => (quotedValue? cs).map (c :: ·)

/-- The value of an attribute behind its name. -/
def attributeValue? (cs : List Char) : Option String := do
  let cs ← afterSign? '=' cs
  match afterSign? '"' cs with
  | some cs => (quotedValue? cs).map String.ofList
  | none =>
    some (String.ofList ((cs.dropWhile isSpace).takeWhile fun c => c ≠ ';' ∧ c ≠ ' '))

/-- The value of the first attribute of a name; `before` is the character before
the text, if there is one. A name inside a longer word does not count. -/
def attribute? (name : List Char) : Option Char → List Char → Option String
  | _, [] => none
  | before, c :: cs =>
    match Text.afterPrefix? name (c :: cs) with
    | some rest =>
      if before.all fun b => isSpace b || b = ';' then attributeValue? rest
      else attribute? name (some c) cs
    | none => attribute? name (some c) cs

/-- The written form of a media type, if it is one. -/
def mediaTypeText? (value : String) : Option String :=
  (MediaType.ofText? value).map fun _ =>
    let (type, parameters) := value.toList.span (· ≠ ';')
    String.ofList (type.map Char.toLower ++ parameters)

/-- The part of a header block and a content. -/
def part (fields : List (String × String)) (content : List UInt8) : Part :=
  let disposition := (List.lookup "content-disposition" fields).map String.toList
  { name := disposition.bind (attribute? "name".toList none)
    fileName := disposition.bind (attribute? "filename".toList none)
    contentType := (List.lookup "content-type" fields).bind mediaTypeText?
    content }

/-- One attribute of a disposition; values are written as they are. -/
def attributeText (name : String) (value : Option String) : String :=
  value.elim "" fun value => "; " ++ name ++ "=\"" ++ value ++ "\""

/-- The header block of a part, with the empty line behind it. -/
def Part.header (p : Part) : String :=
  let contentType := p.contentType.elim "" fun type => s!"Content-Type: {type}\r\n"
  "Content-Disposition: form-data" ++ attributeText "name" p.name ++
    attributeText "filename" p.fileName ++ "\r\n" ++ contentType ++ "\r\n"

/-- The form of some parts. -/
def write (boundary : String) (parts : List Part) : List UInt8 :=
  parts.flatMap (fun p =>
    ascii s!"--{boundary}\r\n" ++ ascii p.header ++ p.content ++ lineEnd) ++
  ascii s!"--{boundary}--\r\n"

/-- The text before the first boundary of a form does not count. -/
def start (boundary : String) (body : List UInt8) : Except FormError (List UInt8) :=
  match find? (ascii ("--" ++ boundary)) body with
  | some (_, rest) => .ok rest
  | none => .error .incomplete

/-- The header block of the next part and what follows it, or the end of the form.
The rest of a form begins with a boundary. -/
def nextHeader (boundary : String) (rest : List UInt8) :
    Except FormError (Option (List (String × String) × List UInt8)) :=
  match after? (ascii ("--" ++ boundary)) rest with
  | none => .error .incomplete
  | some rest =>
    if rest.length < 2 then .error .incomplete
    else if rest.take 2 = ascii "--" then .ok none
    else
      match after? lineEnd (rest.dropWhile fun b => b = 32 || b = 9) with
      | none => .error .incomplete
      | some rest =>
        match find? (lineEnd ++ lineEnd) rest with
        | none => .error .incomplete
        | some (block, rest) =>
          match headerFields? block with
          | none => .error .badHeader
          | some fields => .ok (some (fields, rest.drop 4))

/-- The next part and the rest of the form behind it. -/
def next (boundary : String) (rest : List UInt8) :
    Except FormError (Option (Part × List UInt8)) := do
  match ← nextHeader boundary rest with
  | none => return none
  | some (fields, rest) =>
    match find? (lineEnd ++ ascii ("--" ++ boundary)) rest with
    | some (content, rest) => return some (part fields content, rest.drop 2)
    | none => throw (.incompletePart (part fields []).name)

/-- The first part that passes a test; a number bounds the parts that are read. -/
def findPart (boundary : String) (p : Part → Bool) : Nat → List UInt8 →
    Except FormError (Option Part)
  | 0, _ => return none
  | parts + 1, rest => do
    match ← next boundary rest with
    | none => return none
    | some (part, rest) => if p part then return some part else findPart boundary p parts rest

end RenderGateway.FormData
