import Workbench.Text.Basic

/-! # Moments

A moment is a number of seconds since the beginning of 1970, shown in universal
time. Dates follow the Gregorian calendar in both directions.
-/

namespace Workbench.Log

structure Date where
  year : Int
  month : Nat
  day : Nat
deriving DecidableEq

namespace Date

/-- Days from the first of March of the year 0 to the beginning of 1970. -/
def epoch : Int := 719468

/-- The date of a day counted from the beginning of 1970. Years are counted from
March, so that the day put in every fourth year is the last of its year. -/
def ofDays (days : Int) : Date :=
  let z := days + epoch
  let era := z / 146097
  let dayOfEra := z % 146097
  let yearOfEra := (dayOfEra - dayOfEra / 1460 + dayOfEra / 36524 - dayOfEra / 146096) / 365
  let dayOfYear := dayOfEra - (365 * yearOfEra + yearOfEra / 4 - yearOfEra / 100)
  let shifted := (5 * dayOfYear + 2) / 153
  let day := dayOfYear - (153 * shifted + 2) / 5 + 1
  let month := if shifted < 10 then shifted + 3 else shifted - 9
  let year := yearOfEra + era * 400
  ⟨if month ≤ 2 then year + 1 else year, month.toNat, day.toNat⟩

end Date

def twoDigits (n : Nat) : Text := Text.padLeft 2 '0' (Text.ofNat n)

def clockText (seconds : Int) : Text :=
  let s := (seconds % 86400).toNat
  twoDigits (s / 3600) ++ ":" ++ twoDigits (s / 60 % 60) ++ ":" ++ twoDigits (s % 60)

def dateText (seconds : Int) : Text :=
  let d := Date.ofDays (seconds / 86400)
  Text.ofInt d.year ++ "-" ++ twoDigits d.month ++ "-" ++ twoDigits d.day

end Workbench.Log
