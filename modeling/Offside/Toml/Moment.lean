import Offside.Text.Digits

/-!
# Dates and times in TOML

A date, a time of day, or both; both together may have an offset from universal time. They are kept
as their text in one canonical form: a capital `T` between date and time, and fractions of a second
cut off after nine digits and without zeros at the end.
-/

set_option autoImplicit false

namespace Offside.Toml

open Scanner

/-- A number of two digits between `low` and `high`. -/
def twoDigits (low high : Nat) : Scanner Nat := do
  let n := Text.ofDigits 10 (← exactRun Char.isDigit 2)
  check (low ≤ n && n ≤ high)
  pure n

/-- The days of a month. -/
def daysIn (year month : Nat) : Nat :=
  if month == 2 then
    if year % 4 == 0 && (year % 100 != 0 || year % 400 == 0) then 29 else 28
  else if [4, 6, 9, 11].contains month then 30
  else 31

/-- A date. -/
def date : Scanner String := do
  let year := Text.ofDigits 10 (← exactRun Char.isDigit 4)
  exactly '-'
  let month ← twoDigits 1 12
  exactly '-'
  let day ← twoDigits 1 (daysIn year month)
  pure (Text.padded 4 year ++ "-" ++ Text.padded 2 month ++ "-" ++ Text.padded 2 day)

/-- A fraction of a second, with its point. -/
def secondFraction : Scanner String := do
  exactly '.'
  let places ← run1 Char.isDigit
  let kept := ((places.take 9).reverse.dropWhile (· == '0')).reverse
  pure (if kept.isEmpty then "" else String.ofList ('.' :: kept))

/-- A time of day; a minute may have a leap second. -/
def time : Scanner String := do
  let hour ← twoDigits 0 23
  exactly ':'
  let minute ← twoDigits 0 59
  exactly ':'
  let second ← twoDigits 0 60
  let rest ← maybe secondFraction
  pure (Text.padded 2 hour ++ ":" ++ Text.padded 2 minute ++ ":" ++ Text.padded 2 second ++
    rest.getD "")

/-- An offset from universal time. An offset of nothing has a plus. -/
def offset : Scanner String :=
  (do let _ ← char fun c => c == 'Z' || c == 'z'; pure "Z") <|>
  (do
    let c ← char fun c => c == '+' || c == '-'
    let hour ← twoDigits 0 23
    exactly ':'
    let minute ← twoDigits 0 59
    let direction := if c == '-' && (hour != 0 || minute != 0) then "-" else "+"
    pure (direction ++ Text.padded 2 hour ++ ":" ++ Text.padded 2 minute))

/-- What follows a date: a time, perhaps with an offset. -/
def timeOfDate : Scanner String := do
  let _ ← char fun c => c == 'T' || c == 't' || c == ' '
  let t ← time
  let o ← maybe offset
  pure ("T" ++ t ++ o.getD "")

/-- A date, a time, or both. -/
def moment : Scanner String :=
  (do
    let d ← date
    let t ← maybe timeOfDate
    pure (d ++ t.getD "")) <|> time

end Offside.Toml
