/-!
# Points in time

A `Date` is a number of seconds since the beginning of 1970 in universal time, with nanoseconds.  A
leap second is the second before it with a billion nanoseconds or more.  `Date.text` writes a date as
year, month, day and time of day with the offset of universal time (`+00:00`).

Days are turned into a calendar date by counting from 1 March of year 0, so that the leap day is the
last day of its year and the months before it have a fixed pattern of lengths.
-/

namespace DataExpr

/-- A point in time. -/
structure Date where
  seconds : Int
  nanoseconds : Nat
deriving DecidableEq, Inhabited

namespace Date

/-- Year, month and day of the number of days since the beginning of 1970. -/
def civil (days : Int) : Int × Nat × Nat :=
  let z := days + 719468
  let era := z.fdiv 146097
  let dayOfEra := (z.fmod 146097).toNat
  let yearOfEra := (dayOfEra - dayOfEra / 1460 + dayOfEra / 36524 - dayOfEra / 146096) / 365
  let dayOfYear := dayOfEra - (365 * yearOfEra + yearOfEra / 4 - yearOfEra / 100)
  let shifted := (5 * dayOfYear + 2) / 153
  let day := dayOfYear - (153 * shifted + 2) / 5 + 1
  let month := if shifted < 10 then shifted + 3 else shifted - 9
  let year := (yearOfEra : Int) + era * 400 + if month ≤ 2 then 1 else 0
  (year, month, day)

/-- The number with zeros in front up to the given width. -/
def padded (width n : Nat) : String :=
  let digits := toString n
  String.ofList (List.replicate (width - digits.length) '0') ++ digits

/-- The year, with a sign if it does not have four digits. -/
def yearText (year : Int) : String :=
  if 0 ≤ year ∧ year ≤ 9999 then padded 4 year.toNat
  else (if year < 0 then "-" else "+") ++ padded 4 year.natAbs

/-- The fraction of a second: none, or as many groups of three digits as it takes. -/
def fractionText (nanoseconds : Nat) : String :=
  if nanoseconds = 0 then ""
  else if nanoseconds % 1000000 = 0 then "." ++ padded 3 (nanoseconds / 1000000)
  else if nanoseconds % 1000 = 0 then "." ++ padded 6 (nanoseconds / 1000)
  else "." ++ padded 9 nanoseconds

/-- The date as year, month, day and time of day in universal time. -/
def text (d : Date) : String :=
  let (year, month, day) := civil (d.seconds.fdiv 86400)
  let second := (d.seconds.fmod 86400).toNat
  let leap := d.nanoseconds / 1000000000
  yearText year ++ "-" ++ padded 2 month ++ "-" ++ padded 2 day ++ "T" ++
    padded 2 (second / 3600) ++ ":" ++ padded 2 (second / 60 % 60) ++ ":" ++
    padded 2 (second % 60 + leap) ++ fractionText (d.nanoseconds % 1000000000) ++ "+00:00"

end Date

end DataExpr
