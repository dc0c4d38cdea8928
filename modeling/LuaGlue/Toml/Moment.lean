import LuaGlue.Text.Blank

/-!
# Dates and times

The three notations of TOML: a date, a time, and a date with a time and perhaps an offset from
universal time. Reading one yields its canonical notation: a capital `T` between date and time, a
capital `Z` or a signed offset, and no more digits of a second than needed, of which nine count.
Nothing further is ever done with a date.
-/

set_option autoImplicit false

namespace LuaGlue.Toml

open Text

/-- Exactly `count` digits, and what follows. -/
def fixedDigits? : Nat → List Char → Option (List Char × List Char)
  | 0, cs => some ([], cs)
  | count + 1, c :: rest =>
    if c.isDigit then (fixedDigits? count rest).map fun (ds, after) => (c :: ds, after) else none
  | _ + 1, [] => none

/-- The value of some digits. -/
def valueOf (digits : List Char) : Nat :=
  digits.foldl (fun value c => value * 10 + (c.toNat - 0x30)) 0

/-- Two digits with a value from `low` to `high`. -/
def pair? (low high : Nat) (cs : List Char) : Option (List Char × List Char) := do
  let (ds, rest) ← fixedDigits? 2 cs
  if low ≤ valueOf ds && valueOf ds ≤ high then some (ds, rest) else none

/-- What follows a given character. -/
def after? (mark : Char) : List Char → Option (List Char)
  | c :: rest => if c == mark then some rest else none
  | [] => none

def isLeapYear (year : Nat) : Bool := year % 4 == 0 && (year % 100 != 0 || year % 400 == 0)

def daysIn (year month : Nat) : Nat :=
  if month == 2 then (if isLeapYear year then 29 else 28)
  else if month == 4 || month == 6 || month == 9 || month == 11 then 30
  else 31

/-- A date: `1979-05-27`. -/
def date? (cs : List Char) : Option (List Char × List Char) := do
  let (year, rest) ← fixedDigits? 4 cs
  let (month, rest) ← pair? 1 12 (← after? '-' rest)
  let (day, rest) ← pair? 1 (daysIn (valueOf year) (valueOf month)) (← after? '-' rest)
  some (year ++ '-' :: month ++ '-' :: day, rest)

/-- How many digits of a second count. -/
def maxDecimals : Nat := 9

/-- The decimals of a second with their point, if a point and a digit stand here. -/
def decimals (cs : List Char) : List Char × List Char :=
  match cs with
  | '.' :: rest =>
    match rest.takeWhile Char.isDigit with
    | [] => ([], cs)
    | ds =>
      match dropEndWhile (· == '0') (ds.take maxDecimals) with
      | [] => ([], rest.dropWhile Char.isDigit)
      | kept => ('.' :: kept, rest.dropWhile Char.isDigit)
  | _ => ([], cs)

/-- A time: `07:32:00.5`. A minute may have a leap second. -/
def time? (cs : List Char) : Option (List Char × List Char) := do
  let (hour, rest) ← pair? 0 23 cs
  let (minute, rest) ← pair? 0 59 (← after? ':' rest)
  let (second, rest) ← pair? 0 60 (← after? ':' rest)
  let (fraction, rest) := decimals rest
  some (hour ++ ':' :: minute ++ ':' :: second ++ fraction, rest)

/-- An offset from universal time; zero has a plus sign. -/
def offset? : List Char → Option (List Char × List Char)
  | 'Z' :: rest | 'z' :: rest => some (['Z'], rest)
  | '+' :: rest => distance '+' rest
  | '-' :: rest => distance '-' rest
  | _ => none
where
  distance (sign : Char) (cs : List Char) : Option (List Char × List Char) := do
    let (hours, rest) ← pair? 0 23 cs
    let (minutes, rest) ← pair? 0 59 (← after? ':' rest)
    let sign := if valueOf hours == 0 && valueOf minutes == 0 then '+' else sign
    some (sign :: hours ++ ':' :: minutes, rest)

/-- The time after a date, and its offset. A letter or a blank stands between them. -/
def timeOfDay? : List Char → Option (List Char × List Char)
  | 'T' :: rest | 't' :: rest | ' ' :: rest => do
    let (time, rest) ← time? rest
    match offset? rest with
    | some (offset, rest) => some ('T' :: time ++ offset, rest)
    | none => some ('T' :: time, rest)
  | _ => none

/-- A date, a time or both, in canonical notation. -/
def moment? (cs : List Char) : Option (String × List Char) :=
  match date? cs with
  | some (date, rest) =>
    match timeOfDay? rest with
    | some (time, rest') => some (String.ofList (date ++ time), rest')
    | none => some (String.ofList date, rest)
  | none => (time? cs).map fun (time, rest) => (String.ofList time, rest)

end LuaGlue.Toml
