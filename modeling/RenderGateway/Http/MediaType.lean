import RenderGateway.Text.Basic

/-!
# Media types

Media types of bodies: `type/subtype`, perhaps with a suffix of the subtype and
with parameters. Names do not distinguish letter case. The type of a file is
told by its extension.
-/

namespace RenderGateway

structure MediaType where
  main : String
  subtype : String
  suffix : Option String
  parameters : List (String × String)
deriving DecidableEq, Repr

namespace MediaType

/-- Characters of the names in a media type. -/
def isTokenChar (c : Char) : Bool := c.isAlphanum || "!#$%&'*+-.^_`|~".toList.contains c

def isToken (cs : List Char) : Bool := cs ≠ [] && cs.all isTokenChar

/-- A quoted value up to its closing quote, and what follows it. -/
def quoted? : List Char → Option (List Char × List Char)
  | [] => none
  | '"' :: cs => some ([], cs)
  | '\\' :: c :: cs => (quoted? cs).map fun (value, rest) => (c :: value, rest)
  | c :: cs => (quoted? cs).map fun (value, rest) => (c :: value, rest)

/-- The value of a parameter and what follows it. -/
def value? (cs : List Char) : Option (List Char × List Char) :=
  match cs with
  | '"' :: cs => quoted? cs
  | cs =>
    let (value, rest) := cs.span isTokenChar
    if value = [] then none else some (value, rest)

def skipBlanks (cs : List Char) : List Char := cs.dropWhile fun c => c = ' ' || c = '\t'

/-- The parameters, each after a semicolon. -/
def parameters? : Nat → List Char → Option (List (String × String))
  | 0, _ => none
  | fuel + 1, cs =>
    match skipBlanks cs with
    | [] => some []
    | ';' :: cs => do
      let cs := skipBlanks cs
      if cs = [] then some []
      else
        let (name, rest) := cs.span isTokenChar
        if name = [] then none
        else match rest with
          | '=' :: rest => do
            let (value, rest) ← value? rest
            let others ← parameters? fuel rest
            return (Text.lower (String.ofList name), String.ofList value) :: others
          | _ => none
    | _ => none

def ofText? (s : String) : Option MediaType := do
  let (main, rest) ← Text.splitOnce? '/' (Text.trimChars s.toList)
  let (name, rest) := rest.span isTokenChar
  if !isToken main || name = [] then none
  else
    let parameters ← parameters? (rest.length + 1) rest
    let (subtype, suffix) := match Text.splitLast? '+' name with
      | some (subtype, suffix) => (subtype, some (Text.lower (String.ofList suffix)))
      | none => (name, none)
    return { main := Text.lower (String.ofList main)
             subtype := Text.lower (String.ofList subtype)
             suffix
             parameters }

/-- JSON itself and the types of applications that are written in it. -/
def isJson (m : MediaType) : Bool :=
  m.main = "application" && (m.subtype = "json" || m.suffix = some "json")

/-- The boundary between the parts of a form. -/
def boundary? (m : MediaType) : Option String :=
  if m.main = "multipart" && m.subtype = "form-data" then List.lookup "boundary" m.parameters
  else none

/-- The types of files by extension. -/
def byExtension : List (String × String) :=
  [("3gp", "video/3gpp"), ("aac", "audio/aac"), ("aif", "audio/aiff"), ("aiff", "audio/aiff"),
   ("avi", "video/x-msvideo"), ("avif", "image/avif"), ("bin", "application/octet-stream"),
   ("bmp", "image/bmp"), ("css", "text/css"), ("csv", "text/csv"), ("flac", "audio/flac"),
   ("flv", "video/x-flv"), ("gif", "image/gif"), ("gz", "application/gzip"),
   ("htm", "text/html"), ("html", "text/html"), ("ico", "image/x-icon"), ("jpeg", "image/jpeg"),
   ("jpg", "image/jpeg"), ("js", "text/javascript"), ("json", "application/json"),
   ("log", "text/plain"), ("m3u8", "application/x-mpegurl"), ("m4a", "audio/m4a"),
   ("m4v", "video/x-m4v"), ("md", "text/markdown"), ("mkv", "video/x-matroska"),
   ("mov", "video/quicktime"), ("mp3", "audio/mpeg"), ("mp4", "video/mp4"),
   ("mpeg", "video/mpeg"), ("mpg", "video/mpeg"), ("mts", "video/vnd.dlna.mpeg-tts"),
   ("oga", "audio/ogg"), ("ogg", "audio/ogg"), ("ogv", "video/ogg"), ("opus", "audio/opus"),
   ("otf", "font/otf"), ("pdf", "application/pdf"), ("png", "image/png"),
   ("qt", "video/quicktime"), ("sh", "application/x-sh"), ("srt", "application/x-subrip"),
   ("svg", "image/svg+xml"), ("tif", "image/tiff"), ("tiff", "image/tiff"), ("ttf", "font/ttf"),
   ("txt", "text/plain"), ("vtt", "text/vtt"), ("wasm", "application/wasm"),
   ("wav", "audio/wav"), ("weba", "audio/webm"), ("webm", "video/webm"), ("webp", "image/webp"),
   ("wmv", "video/x-ms-wmv"), ("xml", "text/xml"), ("yaml", "text/x-yaml"),
   ("yml", "text/x-yaml"), ("zip", "application/zip")]

def unknown : String := "application/octet-stream"

/-- The type of a file with an extension. -/
def ofExtension (extension : Option (List Char)) : String :=
  (extension.bind fun ext => List.lookup (Text.lower (String.ofList ext)) byExtension).getD unknown

end MediaType

end RenderGateway
