import Docroot.Calendar
import Docroot.Text.Decimal
/-!
Points in time, and how they are written in headers.

A time is a count of seconds since the start of 1970 and the nanoseconds after that second. A leap
second is the second 59 of its minute with a billion nanoseconds or more, and is written as `:60`.
A header shows the whole second, with a year of four digits, or with a sign and at least four
digits if it lies outside 0 to 9999.
-/
namespace Docroot

structure Timestamp where
  seconds : Int
  nanos : Nat
  deriving DecidableEq, Repr

namespace Timestamp

def earliest : Int := -8334601228800

def latest : Int := 8210266876799

def billion : Nat := 1000000000

/-- The times of UTC: a leap second comes after second 59 of a minute only. A library for dates may
let a time with a billion nanoseconds or more stand at any second (`with_nanosecond` of chrono
does). Such a time is none of UTC and not representable here. -/
def Representable (t : Timestamp) : Prop :=
  earliest ≤ t.seconds ∧ t.seconds ≤ latest ∧
    (t.nanos < billion ∨ t.seconds % 60 = 59 ∧ t.nanos < 2 * billion)

instance (t : Timestamp) : Decidable t.Representable := by
  unfold Representable; infer_instance

/-- The time with these seconds and nanoseconds, if there is one. -/
def ofParts? (seconds nanos : Int) : Option Timestamp :=
  let t : Timestamp := ⟨seconds, nanos.toNat⟩
  if 0 ≤ nanos ∧ t.Representable then some t else none

/-- The start of 1970. -/
def epoch : Timestamp := ⟨0, 0⟩

def days (t : Timestamp) : Int := t.seconds / 86400

/-- The seconds since the start of the day. -/
def secondOfDay (t : Timestamp) : Nat := (t.seconds % 86400).toNat

def hour (t : Timestamp) : Nat := t.secondOfDay / 3600

def minute (t : Timestamp) : Nat := t.secondOfDay / 60 % 60

def isLeap (t : Timestamp) : Bool := billion ≤ t.nanos

/-- The second as it is shown, which is 60 in a leap second. -/
def second (t : Timestamp) : Nat := t.secondOfDay % 60 + if t.isLeap then 1 else 0

/-- The nanoseconds of the second that is shown. -/
def fraction (t : Timestamp) : Nat := t.nanos % billion

def date (t : Timestamp) : Calendar.Date := Calendar.ofDays t.days

/-- Four digits from 0 to 9999, and a sign with at least four digits elsewhere. -/
def yearText (year : Int) : List Char :=
  if 0 ≤ year ∧ year ≤ 9999 then Decimal.padded 4 year.toNat else Decimal.signed 4 year

/-- Hours, minutes and seconds with colons between them. -/
def clock (t : Timestamp) : List Char :=
  Decimal.padded 2 t.hour ++ ':' :: Decimal.padded 2 t.minute ++ ':' :: Decimal.padded 2 t.second

/-- The characters of the time as a header shows it. -/
def httpDateChars (t : Timestamp) : List Char :=
  (Calendar.weekdayName t.days).toList ++ ',' :: ' ' :: Decimal.padded 2 t.date.day ++
    ' ' :: (Calendar.monthName t.date.month).toList ++ ' ' :: yearText t.date.year ++
    ' ' :: t.clock ++ [' ', 'G', 'M', 'T']

/-- The time as a header shows it. -/
def httpDate (t : Timestamp) : String := String.ofList t.httpDateChars

/-- A point and 3, 6 or 9 digits, as many as the fraction needs. -/
def fractionText (nanos : Nat) : List Char :=
  if nanos = 0 then []
  else if nanos % 1000000 = 0 then '.' :: Decimal.padded 3 (nanos / 1000000)
  else if nanos % 1000 = 0 then '.' :: Decimal.padded 6 (nanos / 1000)
  else '.' :: Decimal.padded 9 nanos

/-- The time in diagnostics. -/
def describe (t : Timestamp) : String :=
  String.ofList (yearText t.date.year ++ '-' :: Decimal.padded 2 t.date.month ++
    '-' :: Decimal.padded 2 t.date.day ++ 'T' :: t.clock ++ fractionText t.fraction ++ ['Z'])

end Timestamp

end Docroot
