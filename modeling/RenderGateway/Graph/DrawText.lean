import RenderGateway.Graph.Amount
import RenderGateway.Plan.Basic

/-!
# Drawn text

An overlay as the options of one filter. A value that comes from the plan
stands between single quotes, which the graph reads literally up to the next
quote, so no such value contains one.
-/

namespace RenderGateway.Graph

/-- The value of a filter option. -/
inductive OptionValue
  | bare (text : String)
  | quoted (text : String)
deriving DecidableEq, Repr

namespace OptionValue

def text : OptionValue → String
  | bare s => s
  | quoted s => "'" ++ s ++ "'"

end OptionValue

structure FilterOption where
  key : String
  value : OptionValue
deriving DecidableEq, Repr

namespace FilterOption

def text (o : FilterOption) : String := o.key ++ "=" ++ o.value.text

end FilterOption

/-- How a character of drawn text is written: the option syntax is escaped, a
quote becomes a typographic one and a line break a blank. -/
def escapedChar (c : Char) : List Char :=
  if c = '\\' then ['\\', '\\']
  else if c = '\'' then ['\u2019']
  else if c = ':' then ['\\', ':']
  else if c = '\n' ∨ c = '\r' then [' ']
  else [c]

def escapeText (s : String) : String := String.ofList (s.toList.flatMap escapedChar)

/-- An expression between quotes, without the quotes that it holds. -/
def quotedExpression (s : String) : OptionValue :=
  .quoted (String.ofList (s.toList.filter fun c => c ≠ '\''))

/-- Visible from `start` up to but not including `stop`. -/
def enableOption (start stop : Int) : FilterOption :=
  ⟨"enable", .quoted ("gte(t," ++ seconds start ++ ")*lt(t," ++ seconds stop ++ ")")⟩

end RenderGateway.Graph

namespace RenderGateway

namespace TextPosition

/-- The height at which a text of the position stands. -/
def expression : TextPosition → String
  | top => "h*0.08"
  | center => "(h-text_h)/2"
  | bottom => "h-text_h-h*0.08"

end TextPosition

namespace TextBackground

open RenderGateway.Graph

def options (b : TextBackground) : List FilterOption :=
  [⟨"box", .bare "1"⟩,
   ⟨"boxcolor", quotedExpression (b.color ++ "@" ++ factor b.opacity)⟩,
   ⟨"boxborderw", .bare (toString b.padding)⟩]

end TextBackground

namespace TextOverlay

open RenderGateway.Graph

def options (o : TextOverlay) : List FilterOption :=
  [⟨"text", .quoted (escapeText o.content)⟩,
   ⟨"expansion", .bare "none"⟩] ++
  (match o.fontFile with
    | some font => [⟨"fontfile", quotedExpression font⟩]
    | none => []) ++
  [⟨"fontsize", .bare (toString o.fontSize)⟩,
   ⟨"fontcolor", quotedExpression o.fontColor⟩,
   ⟨"x", quotedExpression (o.x.getD "(w-text_w)/2")⟩,
   ⟨"y", quotedExpression (o.y.getD o.position.expression)⟩] ++
  (match o.background with
    | some b => b.options
    | none => []) ++
  [enableOption o.timelineStart.toInt o.timelineEnd.toInt]

def drawText (o : TextOverlay) : String :=
  "drawtext=" ++ ":".intercalate (o.options.map FilterOption.text)

end TextOverlay

end RenderGateway
