import RenderGateway.Number.Arithmetic
import RenderGateway.Number.Decimal
import RenderGateway.Text.Basic

/-!
# Amounts in filter expressions

Times are written in seconds with three places. Factors have six places at most
and no zeros at the end. A tempo is played as stages that each stay between
half and double speed.
-/

namespace RenderGateway.Graph

open Numeral

/-- Milliseconds as seconds, to the millisecond. The least word has no magnitude among words: both
parts of what stands for it have a minus of their own. -/
def seconds (ms : Int) : String :=
  let mark := if ms = Int64.minValue.toInt then ['-'] else []
  String.ofList <|
    (if ms < 0 then ['-'] else []) ++ (mark ++ digits (ms.natAbs / 1000)) ++
      '.' :: (mark ++ padded 3 (ms.natAbs % 1000))

/-- Drops the zeros at the end of a fraction, and the point if none is left. -/
def withoutTrailingZeros (cs : List Char) : List Char :=
  Text.dropEndWhile (· = '.') (Text.dropEndWhile (· = '0') cs)

/-- A factor with up to six places. -/
def factor (x : Binary64) : String :=
  String.ofList (withoutTrailingZeros (x.fixed 6).toList)

def tempoTolerance : Binary64 := .ofRat (mkRat 1 1000000000)

/-- The last stage, unless it would not change the tempo. -/
def lastTempoStage (x : Binary64) : List Binary64 :=
  if tempoTolerance < (x - 1).abs then [x] else []

/-- Doubles while the rest is below one half. -/
def slowStages : Nat → Binary64 → List Binary64
  | 0, x => lastTempoStage x
  | fuel + 1, x =>
    let half : Binary64 := .ofRat (mkRat 1 2)
    if x < half then half :: slowStages fuel (x / half) else lastTempoStage x

/-- Halves while the rest is above two. -/
def fastStages (slowFuel : Nat) : Nat → Binary64 → List Binary64
  | 0, x => slowStages slowFuel x
  | fuel + 1, x => if 2 < x then 2 :: fastStages slowFuel fuel (x / 2) else slowStages slowFuel x

/-- The stages of a tempo; every stage moves the binary exponent by one. -/
def tempoStages (speed : Binary64) : List Binary64 :=
  match speed with
  | .finite x =>
    if 0 < speed ∧ speed.differsFromOne then
      let fuel := x.exponent.natAbs + 53
      fastStages fuel fuel speed
    else []
  | _ => []

end RenderGateway.Graph
