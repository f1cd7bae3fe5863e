/-!
# Text

Blank characters, trimming, splitting and letter case. The work is done on
lists of characters; the functions on strings wrap it.
-/

namespace RenderGateway.Text

/-- The code points of the Unicode property White_Space. -/
def isBlank (c : Char) : Bool :=
  let n := c.toNat
  (0x9 ≤ n && n ≤ 0xD) || n = 0x20 || n = 0x85 || n = 0xA0 || n = 0x1680 ||
    (0x2000 ≤ n && n ≤ 0x200A) || n = 0x2028 || n = 0x2029 || n = 0x202F || n = 0x205F ||
    n = 0x3000

/-- Control characters, of ASCII and of the Latin-1 block. -/
def isControl (c : Char) : Bool := c.toNat < 0x20 || (0x7F ≤ c.toNat && c.toNat ≤ 0x9F)

def trimStart (cs : List Char) : List Char := cs.dropWhile isBlank

/-- Drops the longest suffix whose characters all pass the test. -/
def dropEndWhile (p : Char → Bool) (cs : List Char) : List Char :=
  (cs.reverse.dropWhile p).reverse

def trimEnd (cs : List Char) : List Char := dropEndWhile isBlank cs

def trimChars (cs : List Char) : List Char := trimEnd (trimStart cs)

def trim (s : String) : String := String.ofList (trimChars s.toList)

def isBlankText (s : String) : Bool := s.toList.all isBlank

/-- A text without the slashes at its end. -/
def dropEndSlashes (s : String) : String := String.ofList (dropEndWhile (· = '/') s.toList)

/-- The parts before and after the first occurrence of a character. -/
def splitOnce? (c : Char) : List Char → Option (List Char × List Char)
  | [] => none
  | d :: cs =>
    if d = c then some ([], cs) else (splitOnce? c cs).map fun (a, b) => (d :: a, b)

/-- The parts before and after the last occurrence of a character. -/
def splitLast? (c : Char) (cs : List Char) : Option (List Char × List Char) :=
  (splitOnce? c cs.reverse).map fun (a, b) => (b.reverse, a.reverse)

/-- The parts between the occurrences of a character. -/
def split (c : Char) (s : String) : List String := (s.toList.splitOn c).map String.ofList

/-- What follows a given beginning. -/
def afterPrefix? : List Char → List Char → Option (List Char)
  | [], cs => some cs
  | _ :: _, [] => none
  | p :: ps, c :: cs => if p = c then afterPrefix? ps cs else none

/-- What precedes a given ending. -/
def beforeSuffix? (ending cs : List Char) : Option (List Char) :=
  (afterPrefix? ending.reverse cs.reverse).map List.reverse

def hasPrefix (start s : String) : Bool := start.toList.isPrefixOf s.toList

def hasSuffix (ending s : String) : Bool := ending.toList.isSuffixOf s.toList

/-- Whether a text occurs somewhere inside another. -/
def occurs (part : List Char) : List Char → Bool
  | [] => part.isEmpty
  | c :: cs => part.isPrefixOf (c :: cs) || occurs part cs

def contains (s part : String) : Bool := occurs part.toList s.toList

/-- ASCII letters in lower case, all else unchanged. -/
def lower (s : String) : String := String.ofList (s.toList.map Char.toLower)

/-- At most the given number of characters from the start. -/
def take (n : Nat) (s : String) : String := String.ofList (s.toList.take n)

/-- Texts in their order, by code points. -/
def sorted (ss : List String) : List String := ss.mergeSort fun a b => !(b < a)

end RenderGateway.Text
