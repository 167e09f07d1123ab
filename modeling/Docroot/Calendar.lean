/-!
The proleptic Gregorian calendar.

Days are counted from 1 January 1970. A cycle of 400 years has 146097 days; counted from a
1 March, a leap day is the last day of its year.
-/
namespace Docroot.Calendar

structure Date where
  year : Int
  month : Nat
  day : Nat
  deriving DecidableEq, Repr

/-- The days of a cycle of 400 years. -/
def cycle : Int := 146097

/-- From 1 March of the year 0 to 1 January 1970. -/
def epochShift : Int := 719468

/-- The year of a day within a cycle that starts on 1 March. -/
def yearOfCycle (day : Nat) : Nat :=
  (day - day / 1460 + day / 36524 - day / 146096) / 365

/-- The day's place in its year, both counted from 1 March. -/
def dayOfYear (day : Nat) : Nat :=
  let year := yearOfCycle day
  day - (365 * year + year / 4 - year / 100)

/-- The month of a day of the year, counted from March as 0. -/
def monthFromMarch (day : Nat) : Nat := (5 * day + 2) / 153

/-- The date of a day. -/
def ofDays (days : Int) : Date :=
  let shifted := days + epochShift
  let day := (shifted % cycle).toNat
  let inYear := dayOfYear day
  let fromMarch := monthFromMarch inYear
  let month := if fromMarch < 10 then fromMarch + 3 else fromMarch - 9
  { year := yearOfCycle day + 400 * (shifted / cycle) + if month ≤ 2 then 1 else 0
    month
    day := inYear - (153 * fromMarch + 2) / 5 + 1 }

/-- The weekday, with 1 January 1970, a Thursday, as 4 and Sunday as 0. -/
def weekday (days : Int) : Nat := ((days + 4) % 7).toNat

def weekdayNames : List String := ["Sun", "Mon", "Tue", "Wed", "Thu", "Fri", "Sat"]

def monthNames : List String :=
  ["Jan", "Feb", "Mar", "Apr", "May", "Jun", "Jul", "Aug", "Sep", "Oct", "Nov", "Dec"]

def weekdayName (days : Int) : String := weekdayNames.getD (weekday days) ""

def monthName (month : Nat) : String := monthNames.getD (month - 1) ""

end Docroot.Calendar
