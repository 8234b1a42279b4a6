/-
Points in time and their texts.

An `Instant` counts milliseconds from the start of 1970, and lies within 100 000 000 days of it. Its
text is the calendar date and the time of day in the Gregorian calendar extended to all years; a
year outside 0 to 9999 has a sign and six digits. Dates are worked out in years that begin with
March, so that the day that only some years have is the last of its year.
-/
import ChangeImpact.Number.Basic

namespace ChangeImpact

/-- the farthest that an instant lies from the start of 1970, in milliseconds -/
def farthest : Nat := 8640000000000000

structure Instant where
  milliseconds : Int
  inRange : milliseconds.natAbs ≤ farthest
  deriving DecidableEq

/-- the whole part of a finite number -/
def Finite.truncate (x : Finite) : Int :=
  let whole : Nat := x.size / unitsInOne
  if x.negative then -(whole : Int) else whole

/-- a day of the calendar -/
structure Date where
  year : Int
  month : Nat
  day : Nat
  deriving DecidableEq

namespace Instant

/-- the instant of a number of milliseconds, of which the fraction does not count -/
def ofNumber? : Number → Option Instant
  | .finite x =>
    if h : x.truncate.natAbs ≤ farthest then
      if x.size ≤ farthest * unitsInOne then some ⟨x.truncate, h⟩ else none
    else none
  | _ => none

/-- the year and the day of the year for a day of 400 years, the first of which begins with March of a year that 400 divides -/
def yearAndDay (dayOfCycle : Nat) : Nat × Nat :=
  let century := min 3 (dayOfCycle / 36524)
  let dayOfCentury := dayOfCycle - 36524 * century
  let dayOfFour := dayOfCentury % 1461
  let year := min 3 (dayOfFour / 365)
  (100 * century + 4 * (dayOfCentury / 1461) + year, dayOfFour - 365 * year)

/-- the date of a day of a year that begins with March; January and February are in the next year of the calendar -/
def dateFromMarch (year : Int) (dayOfYear : Nat) : Date :=
  let months := (5 * dayOfYear + 2) / 153
  let day := dayOfYear - (153 * months + 2) / 5 + 1
  if months < 10 then ⟨year, months + 3, day⟩ else ⟨year + 1, months - 9, day⟩

/-- the date of a day counted from the start of 1970 -/
def civil (day : Int) : Date :=
  let shifted := day + 719468
  let (year, dayOfYear) := yearAndDay (shifted.fmod 146097).toNat
  dateFromMarch (shifted.fdiv 146097 * 400 + year) dayOfYear

/-- at least so many digits, with zeros in front -/
def digits (width n : Nat) : List Char :=
  let ds := Nat.toDigits 10 n
  List.replicate (width - ds.length) '0' ++ ds

def yearText (year : Int) : List Char :=
  if year < 0 then '-' :: digits 6 year.natAbs
  else if year ≤ 9999 then digits 4 year.natAbs
  else '+' :: digits 6 year.natAbs

/-- a date as it is written -/
def dateText (d : Date) : List Char :=
  yearText d.year ++ '-' :: digits 2 d.month ++ '-' :: digits 2 d.day

/-- the time of day to the millisecond -/
def timeText (milliseconds : Nat) : List Char :=
  digits 2 (milliseconds / 3600000) ++ ':' :: digits 2 (milliseconds / 60000 % 60) ++
    ':' :: digits 2 (milliseconds / 1000 % 60) ++ '.' :: digits 3 (milliseconds % 1000)

/-- the date and the time of day -/
def text (i : Instant) : String :=
  String.ofList <|
    dateText (civil (i.milliseconds.fdiv 86400000)) ++ 'T' :: timeText (i.milliseconds.fmod 86400000).toNat ++ ['Z']

end Instant

end ChangeImpact
