/-!
# Points in time

Seconds of Unix time as a date and time of day in UTC, in the Gregorian
calendar extended to all years.
-/

namespace MetricCatalog

/-- Seconds since the start of 1970, and nanoseconds; a thousand million of
these or more is a leap second, at the end of a minute. -/
structure Timestamp where
  seconds : Int
  nanos : Nat := 0
deriving DecidableEq

structure CivilDate where
  year : Int
  month : Nat
  day : Nat
deriving DecidableEq

/-- The date so many days after 1 January 1970.  Years are counted from March,
so that the leap day is the last of its year, in eras of 400 years. -/
def CivilDate.ofDays (days : Int) : CivilDate :=
  let days := days + 719468
  let era := days / 146097
  let dayOfEra := (days % 146097).toNat
  let yearOfEra :=
    (dayOfEra - dayOfEra / 1460 + dayOfEra / 36524 - dayOfEra / 146096) / 365
  let dayOfYear := dayOfEra - (365 * yearOfEra + yearOfEra / 4 - yearOfEra / 100)
  let fromMarch := (5 * dayOfYear + 2) / 153
  let month := if fromMarch < 10 then fromMarch + 3 else fromMarch - 9
  { year := yearOfEra + era * 400 + (if month ≤ 2 then 1 else 0)
    month
    day := dayOfYear - (153 * fromMarch + 2) / 5 + 1 }

def decimalPadded (width n : Nat) : String :=
  let digits := Nat.toDigits 10 n
  String.ofList (List.replicate (width - digits.length) '0' ++ digits)

/-- Four digits; years that do not fit have a sign and as many digits as they
need. -/
def CivilDate.yearText (d : CivilDate) : String :=
  let digits := decimalPadded 4 d.year.natAbs
  if d.year < 0 then "-" ++ digits
  else if 9999 < d.year then "+" ++ digits
  else digits

/-- Date and time of day to the second, as RFC 3339 writes them. -/
def Timestamp.text (t : Timestamp) : String :=
  let date := CivilDate.ofDays (t.seconds / 86400)
  let ofDay := (t.seconds % 86400).toNat
  let two := decimalPadded 2
  date.yearText ++ "-" ++ two date.month ++ "-" ++ two date.day ++ "T" ++
    two (ofDay / 3600) ++ ":" ++ two (ofDay / 60 % 60) ++ ":" ++
    two (ofDay % 60 + t.nanos / 1000000000) ++ "Z"

example : Timestamp.text { seconds := 1709296200 } = "2024-03-01T12:30:00Z" := by
  decide +kernel

example : Timestamp.text { seconds := -62167219201 } = "-0001-12-31T23:59:59Z" := by
  decide +kernel

end MetricCatalog
