import RenderGateway.Text.Basic

/-!
# Shell quoting

Words of a command line. A word of harmless characters stands as it is; any
other stands between single quotes, and a single quote in it is written outside
them after a backslash.
-/

namespace RenderGateway.Shell

/-- The characters that no shell gives a meaning to. -/
def isPlain (c : Char) : Bool :=
  c.isAlphanum || c ∈ ['-', '_', '.', '/', ':', '=', '+', '@', '%', ',']

def quotedChar (c : Char) : List Char := if c = '\'' then ['\'', '\\', '\'', '\''] else [c]

def quoteChars (cs : List Char) : List Char :=
  if cs ≠ [] ∧ cs.all isPlain then cs else '\'' :: cs.flatMap quotedChar ++ ['\'']

def quote (word : String) : String := String.ofList (quoteChars word.toList)

def commandLine (words : List String) : String := " ".intercalate (words.map quote)

end RenderGateway.Shell
