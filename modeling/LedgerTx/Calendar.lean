import LedgerTx.Text.Decimal

namespace LedgerTx.Calendar

/-! # Points in time

Seconds since 1970 as dates of the Gregorian calendar in UTC. -/

/-- The last second of the last year that has a written form. -/
def lastSecond : Nat := 8210266876799

/-- A day of the calendar. -/
structure Date where
  year : Nat
  month : Nat
  day : Nat
deriving DecidableEq

/-- The date that many days after 1 January 1970.  Years are counted from March, so that the leap day
ends a year, in eras of 400 years or 146097 days. -/
def Date.ofDays (days : Nat) : Date :=
  -- from 1 March of the year 0 to 1 January 1970
  let shifted := days + 719468
  let era := shifted / 146097
  let dayOfEra := shifted % 146097
  -- leap days come every 4 years, not every 100, and again every 400
  let yearOfEra := (dayOfEra - dayOfEra / 1460 + dayOfEra / 36524 - dayOfEra / 146096) / 365
  let dayOfYear := dayOfEra - (365 * yearOfEra + yearOfEra / 4 - yearOfEra / 100)
  -- from March on, any five months have 153 days
  let monthFromMarch := (5 * dayOfYear + 2) / 153
  let day := dayOfYear - (153 * monthFromMarch + 2) / 5 + 1
  let month := if monthFromMarch < 10 then monthFromMarch + 3 else monthFromMarch - 9
  let year := yearOfEra + era * 400
  ⟨if month ≤ 2 then year + 1 else year, month, day⟩

/-- A number with two digits at least. -/
def twoDigits (n : Nat) : List Char :=
  if n < 10 then '0' :: Decimal.ofNat n else Decimal.ofNat n

/-- A year, with a plus when it has more than four digits. -/
def yearText (year : Nat) : List Char :=
  if 9999 < year then '+' :: Decimal.ofNat year else Decimal.ofNat year

/-- A point in time as `2018-08-31T23:04:32Z`. -/
def timestamp (seconds : Nat) : List Char :=
  let date := Date.ofDays (seconds / 86400)
  let second := seconds % 86400
  yearText date.year ++ '-' :: twoDigits date.month ++ '-' :: twoDigits date.day
    ++ 'T' :: twoDigits (second / 3600) ++ ':' :: twoDigits (second / 60 % 60)
    ++ ':' :: twoDigits (second % 60) ++ ['Z']

/-- The written form of a point in time; the zeroth second and those after the last have none. -/
def timestamp? (seconds : Nat) : Option (List Char) :=
  if seconds = 0 ∨ lastSecond < seconds then none else some (timestamp seconds)

end LedgerTx.Calendar
