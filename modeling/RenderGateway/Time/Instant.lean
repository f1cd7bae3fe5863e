import RenderGateway.Number.Numeral
import RenderGateway.Number.Power
import RenderGateway.Text.Basic

/-!
# Instants

Points in time with nanoseconds, in the universal time zone, and their text:
date, `T`, time of day, and a fraction of 3, 6 or 9 digits when one is needed.
Reading also takes other zones, a blank or a small `t` between date and time,
and blanks around the parts. A leap second is the 60th second of a minute.
-/

namespace RenderGateway

/-- Days since 1970-01-01, seconds of that day, and nanoseconds, which pass one
second within a leap second. -/
structure Instant where
  day : Int
  second : Nat
  nanosecond : Nat
deriving DecidableEq, Repr, Inhabited

namespace Instant

open Numeral

/-- A date of the proleptic Gregorian calendar. -/
structure Date where
  year : Int
  month : Nat
  day : Nat
deriving DecidableEq, Repr

namespace Date

def isLeapYear (year : Int) : Bool :=
  year % 4 = 0 && (year % 100 != 0 || year % 400 = 0)

def monthLength (year : Int) (month : Nat) : Nat :=
  if month = 2 then (if isLeapYear year then 29 else 28)
  else if month = 4 ∨ month = 6 ∨ month = 9 ∨ month = 11 then 30 else 31

/-- Real dates of the years that the calendar covers. -/
def Valid (d : Date) : Prop :=
  -262143 ≤ d.year ∧ d.year ≤ 262142 ∧ 1 ≤ d.month ∧ d.month ≤ 12 ∧
    1 ≤ d.day ∧ d.day ≤ monthLength d.year d.month

instance (d : Date) : Decidable d.Valid := by unfold Valid; infer_instance

/-- Days since 1970-01-01, counted in years that begin in March. -/
def toDays (d : Date) : Int :=
  let year := if d.month ≤ 2 then d.year - 1 else d.year
  let era := year.fdiv 400
  let yearOfEra := year - era * 400
  let month : Int := ((d.month + 9) % 12 : Nat)
  let dayOfYear := (153 * month + 2) / 5 + d.day - 1
  let dayOfEra := yearOfEra * 365 + yearOfEra / 4 - yearOfEra / 100 + dayOfYear
  era * 146097 + dayOfEra - 719468

def ofDays (days : Int) : Date :=
  let shifted := days + 719468
  let era := shifted.fdiv 146097
  let dayOfEra := shifted - era * 146097
  let yearOfEra := (dayOfEra - dayOfEra / 1460 + dayOfEra / 36524 - dayOfEra / 146096) / 365
  let dayOfYear := dayOfEra - (365 * yearOfEra + yearOfEra / 4 - yearOfEra / 100)
  let month := (5 * dayOfYear + 2) / 153
  let day := dayOfYear - (153 * month + 2) / 5 + 1
  let civilMonth := if month < 10 then month + 3 else month - 9
  let year := yearOfEra + era * 400 + (if civilMonth ≤ 2 then 1 else 0)
  ⟨year, civilMonth.toNat, day.toNat⟩

end Date

/-- Four digits, or a sign and at least four digits outside the years 0 to 9999. -/
def yearText (year : Int) : List Char :=
  if 0 ≤ year ∧ year ≤ 9999 then padded 4 year.natAbs
  else (if year < 0 then '-' else '+') :: padded 4 year.natAbs

/-- The fraction of a second in the fewest groups of three digits. -/
def fractionText (nanosecond : Nat) : List Char :=
  if nanosecond = 0 then []
  else if nanosecond % 1000000 = 0 then '.' :: padded 3 (nanosecond / 1000000)
  else if nanosecond % 1000 = 0 then '.' :: padded 6 (nanosecond / 1000)
  else '.' :: padded 9 nanosecond

def toText (t : Instant) : String :=
  let date := Date.ofDays t.day
  let leap := t.nanosecond / 1000000000
  String.ofList <|
    yearText date.year ++ '-' :: padded 2 date.month ++ '-' :: padded 2 date.day ++
    'T' :: padded 2 (t.second / 3600) ++ ':' :: padded 2 (t.second / 60 % 60) ++
    ':' :: padded 2 (t.second % 60 + leap) ++
    fractionText (t.nanosecond % 1000000000) ++ ['Z']

/-- A number of at most `width` digits after blanks, and what follows it. -/
def readNumber (width : Nat) (cs : List Char) : Option (Nat × List Char) :=
  let cs := Text.trimStart cs
  let ds := (cs.take width).takeWhile Char.isDigit
  if ds = [] then none else some (value ds, cs.drop ds.length)

/-- A year has four digits, or any number of them after a sign. -/
def readYear (cs : List Char) : Option (Int × List Char) :=
  match Text.trimStart cs with
  | '-' :: cs => (signed cs).map fun (n, cs) => (-(n : Int), cs)
  | '+' :: cs => (signed cs).map fun (n, cs) => ((n : Int), cs)
  | cs => (readNumber 4 cs).map fun (n, cs) => ((n : Int), cs)
where
  signed (cs : List Char) : Option (Nat × List Char) :=
    match cs.span Char.isDigit with
    | ([], _) => none
    | (ds, cs) => some (value ds, cs)

def readMark (mark : Char) (cs : List Char) : Option (List Char) :=
  match Text.trimStart cs with
  | c :: cs => if c = mark then some cs else none
  | [] => none

/-- Nanoseconds from the digits after a point; more than nine are cut. -/
def readFraction : List Char → Option (Nat × List Char)
  | '.' :: cs =>
    let (ds, rest) := cs.span Char.isDigit
    if ds = [] then none
    else
      let kept := ds.take 9
      some (value kept * 10 ^ (9 - kept.length), rest)
  | cs => some (0, cs)

/-- Two digits of which the first is at most `top`. -/
def readPair (top : Char) : List Char → Option (Nat × List Char)
  | a :: b :: cs =>
    if a.isDigit ∧ b.isDigit ∧ a ≤ top then some (value [a, b], cs) else none
  | _ => none

/-- The offset of a zone from universal time, in seconds. -/
def readZone (cs : List Char) : Option (Int × List Char) :=
  match Text.trimStart cs with
  | 'Z' :: cs | 'z' :: cs => some (0, cs)
  | c :: cs =>
    if c.toUpper = 'U' then
      match cs with
      | t :: u :: cs => if t.toUpper = 'T' ∧ u.toUpper = 'C' then some (0, cs) else none
      | _ => none
    else if c = '+' then offset 1 cs
    else if c = '-' ∨ c = '\u2212' then offset (-1) cs
    else none
  | [] => none
where
  offset (sign : Int) (cs : List Char) : Option (Int × List Char) := do
    let (hours, cs) ← readPair '9' cs
    let (minutes, cs) ← readPair '5' (cs.dropWhile fun c => c = ':' || Text.isBlank c)
    if 24 ≤ hours then none else return (sign * (hours * 3600 + minutes * 60 : Nat), cs)

/-- The instant of a date and a time of day in a zone. -/
def ofParts? (date : Date) (hour minute second nanosecond : Nat) (zone : Int) : Option Instant :=
  if date.Valid ∧ hour < 24 ∧ minute < 60 ∧ second ≤ 60 then
    let leap := second / 60
    let total : Int := date.toDays * 86400 + (hour * 3600 + minute * 60 + (second - leap) : Nat) - zone
    some ⟨total.fdiv 86400, (total.fmod 86400).toNat, nanosecond + leap * 1000000000⟩
  else none

def ofChars? (cs : List Char) : Option Instant := do
  let (year, cs) ← readYear cs
  let cs ← readMark '-' cs
  let (month, cs) ← readNumber 2 cs
  let cs ← readMark '-' cs
  let (day, cs) ← readNumber 2 cs
  let cs ← match cs with
    | c :: cs => if c = 'T' ∨ c = 't' ∨ c = ' ' then some cs else none
    | [] => none
  let (hour, cs) ← readNumber 2 cs
  let cs ← readMark ':' cs
  let (minute, cs) ← readNumber 2 cs
  let cs ← readMark ':' cs
  let (second, cs) ← readNumber 2 cs
  let (nanosecond, cs) ← readFraction cs
  let (zone, cs) ← readZone cs
  if (Text.trimStart cs).isEmpty then ofParts? ⟨year, month, day⟩ hour minute second nanosecond zone
  else none

def ofText? (s : String) : Option Instant := ofChars? s.toList

end Instant

end RenderGateway
