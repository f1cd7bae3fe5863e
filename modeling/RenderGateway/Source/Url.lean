import RenderGateway.Http.Address
import RenderGateway.Http.Percent
import RenderGateway.Text.Basic

/-!
# Web addresses

Addresses of the schemes `http` and `https` in their normal form: scheme and
host in lower case, no port that is the scheme's own, a path without dot
segments that begins with a slash, and characters that addresses do not have
written as bytes. Blanks and controls around an address and line breaks and tabs
inside it do not count.
-/

namespace RenderGateway

structure WebUrl where
  scheme : String
  /-- The name and the password, with the sign that ends them. -/
  credentials : String
  host : String
  port : Option Nat
  path : String
  query : Option String
  fragment : Option String
deriving DecidableEq, Repr

namespace WebUrl

def isSlash (c : Char) : Bool := c = '/' || c = '\\'

def cleaned (s : String) : List Char :=
  (Text.dropEndWhile (·.toNat ≤ 0x20) (s.toList.dropWhile (·.toNat ≤ 0x20))).filter fun c =>
    c ≠ '\t' ∧ c ≠ '\n' ∧ c ≠ '\r'

/-- Characters that no host has. -/
def isForbiddenInHost (c : Char) : Bool :=
  c.toNat ≤ 0x20 || c.toNat = 0x7F || "#/:<>?@[\\]^|%".toList.contains c

/-- A number in decimal, octal with a leading zero, or hexadecimal with `0x`. -/
def hostNumber? (ds : List Char) : Option Nat :=
  let (base, ds) : Nat × List Char := match ds with
    | '0' :: 'x' :: ds => (16, ds)
    | '0' :: d :: ds => (8, d :: ds)
    | ds => (10, ds)
  (ds.mapM fun c => (Json.hexValue? c).filter (· < base)).map fun vs =>
    vs.foldl (fun n v => n * base + v) 0

/-- A host whose last part is a number is an address in one to four numbers. -/
def numericHost? (parts : List (List Char)) : Option String := do
  let numbers ← parts.mapM fun part => if part = [] then none else hostNumber? part
  let last ← numbers.getLast?
  let front := numbers.dropLast
  if 3 < front.length ∨ front.any (255 < ·) ∨ 256 ^ (4 - front.length) ≤ last then none
  else
    let value := front.zipIdx.foldl (fun n (octet, i) => n + octet * 256 ^ (3 - i)) last
    some s!"{value / 2 ^ 24}.{value / 2 ^ 16 % 256}.{value / 2 ^ 8 % 256}.{value % 256}"

def isNumberPart (part : List Char) : Bool :=
  (part ≠ [] && part.all Char.isDigit) || (Text.afterPrefix? ['0', 'x'] part).any fun ds =>
    ds.all fun c => (Json.hexValue? c).isSome

/-- A host name, or an address in brackets. -/
def host? (cs : List Char) : Option String :=
  match cs with
  | '[' :: rest =>
    match Text.splitLast? ']' rest with
    | some (address, []) => (IpAddress.v6OfChars? address).map fun _ =>
        String.ofList (cs.map Char.toLower)
    | _ => none
  | cs => do
    let name ← Percent.decode? (String.ofList cs)
    let chars := name.toList.map Char.toLower
    if chars = [] ∨ chars.any isForbiddenInHost then none
    else
      let parts := chars.splitOn '.'
      let parts := if 1 < parts.length ∧ parts.getLast? = some [] then parts.dropLast else parts
      if parts.getLast?.any isNumberPart then numericHost? parts else some (String.ofList chars)

/-- The host and what follows its last colon outside brackets. -/
def splitPort (cs : List Char) : List Char × Option (List Char) :=
  match Text.splitLast? ':' cs with
  | some (host, port) => if port.contains ']' then (cs, none) else (host, some port)
  | none => (cs, none)

def ownPort (scheme : String) : Nat := if scheme = "https" then 443 else 80

/-- A port, if one is given that is not the scheme's own. -/
def port? (scheme : String) : Option (List Char) → Option (Option Nat)
  | none | some [] => some none
  | some ds => do
    let n ← (Numeral.natOfDigits? ds).filter (· < 65536)
    return if n = ownPort scheme then none else some n

def isHere (segment : String) : Bool :=
  let s := Text.lower segment
  s = "." || s = "%2e"

def isUp (segment : String) : Bool :=
  let s := Text.lower segment
  s = ".." || s = ".%2e" || s = "%2e." || s = "%2e%2e"

/-- Follows the segments of a path; `kept` holds those passed so far, the last
one first. -/
def walk : List String → List String → List String
  | kept, [] => kept.reverse
  | kept, [s] =>
    if isUp s then ("" :: kept.drop 1).reverse
    else if isHere s then ("" :: kept).reverse
    else (s :: kept).reverse
  | kept, s :: rest =>
    if isUp s then walk (kept.drop 1) rest
    else if isHere s then walk kept rest
    else walk (s :: kept) rest

def isEscapedInPath (c : Char) : Bool := c.toNat ≤ 0x20 || "\"#<>?`\x7b\x7d".toList.contains c

def isEscapedInQuery (c : Char) : Bool := c.toNat ≤ 0x20 || "\"#<>'".toList.contains c

def isEscapedInFragment (c : Char) : Bool := c.toNat ≤ 0x20 || "\"<>`".toList.contains c

/-- A path in its normal form. -/
def normalPath (cs : List Char) : String :=
  let segments := (cs.splitOnP isSlash).map fun part =>
    String.ofList (Percent.encode isEscapedInPath part)
  "/" ++ String.intercalate "/" (walk [] (segments.drop 1))

/-- The parts of an address behind the colon of its scheme. -/
def ofRest? (scheme : String) (cs : List Char) : Option WebUrl := do
  let (cs, fragment) := match Text.splitOnce? '#' cs with
    | some (cs, fragment) => (cs, some fragment)
    | none => (cs, none)
  let (cs, query) := match Text.splitOnce? '?' cs with
    | some (cs, query) => (cs, some query)
    | none => (cs, none)
  let cs := cs.dropWhile isSlash
  let (authority, path) := cs.span fun c => !isSlash c
  let (credentials, place) := match Text.splitLast? '@' authority with
    | some (credentials, place) => (credentials ++ ['@'], place)
    | none => ([], authority)
  let (hostText, portText) := splitPort place
  let host ← host? hostText
  let port ← port? scheme portText
  return { scheme
           credentials := String.ofList credentials
           host
           port
           path := if path = [] then "/" else normalPath path
           query := query.map fun q => String.ofList (Percent.encode isEscapedInQuery q)
           fragment := fragment.map fun f =>
             String.ofList (Percent.encode isEscapedInFragment f) }

/-- The address that a text writes, if it is one of the web. -/
def ofText? (s : String) : Option WebUrl := do
  let (scheme, rest) ← Text.splitOnce? ':' (cleaned s)
  let scheme := Text.lower (String.ofList scheme)
  if scheme = "http" ∨ scheme = "https" then ofRest? scheme rest else none

def text (u : WebUrl) : String :=
  let port := match u.port with
    | some n => s!":{n}"
    | none => ""
  let query := match u.query with
    | some q => "?" ++ q
    | none => ""
  let fragment := match u.fragment with
    | some f => "#" ++ f
    | none => ""
  s!"{u.scheme}://{u.credentials}{u.host}{port}{u.path}{query}{fragment}"

end WebUrl

end RenderGateway
