import Docroot.Proofs.Dates
import Docroot.Timestamp

/-!
Dates in headers, read back.

A date in a header is a line of six fields with a space between any two, and the fifth is a clock of
three numerals with colons between them. No field has a space in it, so the line can be cut into its
fields again and each of them read for itself: `Shown.read?` does so. What is read is what was
shown, and by the calendar it stands for one second. A leap second is shown as second 60 of its
minute, and stands for second 59 of it with a mark.
-/

namespace Docroot

/-! ## Lines and their fields -/

section

variable {sep c : Char} {fields : List (List Char)}

/-- A line is cut into its fields again. -/
theorem splitOn_intercalate_of (some' : fields ≠ [])
    (free : ∀ field ∈ fields, ∀ c ∈ field, c ≠ sep) :
    ([sep].intercalate fields).splitOn sep = fields :=
  List.splitOn_intercalate sep (fun field mem here => free field mem sep here rfl) some'

/-- Every field but the first has the separator in front. -/
theorem intercalate_eq_flatMap (sep : Char) (first : List Char) (rest : List (List Char)) :
    [sep].intercalate (first :: rest) = first ++ rest.flatMap (sep :: ·) := by
  induction rest generalizing first with
  | nil => simp [List.intercalate_singleton]
  | cons next rest ih =>
    rw [List.intercalate_cons_cons, ih, List.flatMap_cons]
    simp

theorem mem_intercalate (mem : c ∈ [sep].intercalate fields) :
    c = sep ∨ ∃ field ∈ fields, c ∈ field := by
  cases fields with
  | nil => cases mem
  | cons first rest =>
    rw [intercalate_eq_flatMap] at mem
    rcases List.mem_append.mp mem with here | later
    · exact .inr ⟨first, List.mem_cons_self, here⟩
    · obtain ⟨field, there, inside⟩ := List.mem_flatMap.mp later
      rcases List.mem_cons.mp inside with between | inside
      · exact .inl between
      · exact .inr ⟨field, List.mem_cons_of_mem _ there, inside⟩

end

namespace Decimal

/-! ## Numerals -/

/-- The number that a numeral stands for. -/
def number? (cs : List Char) : Option Nat :=
  if cs ≠ [] ∧ cs.all Char.isDigit = true then some (Nat.ofDigitChars 10 cs 0) else none

/-- The same with a sign in front, or without. -/
def integer? : List Char → Option Int
  | '-' :: cs => (number? cs).map fun n : Nat => -(n : Int)
  | '+' :: cs => (number? cs).map fun n : Nat => (n : Int)
  | cs => (number? cs).map fun n : Nat => (n : Int)

theorem isDigit_digits {n : Nat} {c : Char} (mem : c ∈ digits n) : c.isDigit = true :=
  Nat.isDigit_of_mem_toDigits (by omega) (by omega) mem

theorem isDigit_padded {width n : Nat} {c : Char} (mem : c ∈ padded width n) :
    c.isDigit = true := by
  rcases List.mem_append.mp mem with zero | digit
  · rw [List.eq_of_mem_replicate zero]
    rfl
  · exact isDigit_digits digit

/-- Zeros in front do not count. -/
theorem ofDigitChars_padded (width n : Nat) : Nat.ofDigitChars 10 (padded width n) 0 = n := by
  have zeros (k : Nat) : Nat.ofDigitChars 10 (List.replicate k '0') 0 = 0 := by
    induction k with
    | zero => rfl
    | succ k ih => exact ih
  rw [padded, Nat.ofDigitChars_append, zeros]
  exact Nat.ofDigitChars_ten_toDigits

theorem number?_padded (width n : Nat) : number? (padded width n) = some n := by
  have some' : padded width n ≠ [] := by
    simp [padded, digits]
  have digits : (padded width n).all Char.isDigit = true :=
    List.all_eq_true.mpr fun c mem => isDigit_padded mem
  rw [number?, if_pos ⟨some', digits⟩, ofDigitChars_padded]

theorem integer?_of_isDigit {cs : List Char} (digits : ∀ c ∈ cs, c.isDigit = true) :
    integer? cs = (number? cs).map fun n : Nat => (n : Int) := by
  unfold integer?
  split
  · exact absurd (digits '-' List.mem_cons_self) (by decide)
  · exact absurd (digits '+' List.mem_cons_self) (by decide)
  · rfl

theorem integer?_signed (width : Nat) (n : Int) : integer? (signed width n) = some n := by
  unfold signed
  by_cases negative : n < 0
  · rw [if_pos negative]
    simp only [integer?, number?_padded, Option.map_some]
    exact congrArg some (by omega)
  · rw [if_neg negative]
    simp only [integer?, number?_padded, Option.map_some]
    exact congrArg some (by omega)

theorem integer?_padded (width n : Nat) : integer? (padded width n) = some (n : Int) := by
  rw [integer?_of_isDigit fun c mem => isDigit_padded mem, number?_padded, Option.map_some]

theorem mem_ofInt {n : Int} {c : Char} (mem : c ∈ (ofInt n).toList) :
    c.isDigit = true ∨ c = '-' := by
  rw [ofInt, String.toList_ofList] at mem
  rcases List.mem_append.mp mem with sign | digit
  · right
    split at sign
    · exact List.mem_singleton.mp sign
    · cases sign
  · exact .inl (isDigit_digits digit)

theorem integer?_ofInt (n : Int) : integer? (ofInt n).toList = some n := by
  have plain (k : Nat) : digits k = padded 0 k := by simp [padded]
  rw [ofInt, String.toList_ofList, plain]
  by_cases negative : n < 0
  · rw [if_pos negative, List.singleton_append]
    simp only [integer?, number?_padded, Option.map_some]
    exact congrArg some (by omega)
  · rw [if_neg negative, List.nil_append, integer?_padded]
    exact congrArg some (by omega)

end Decimal

namespace Timestamp

/-! ## The fields of a date -/

/-- The second that a time lies in. -/
structure Second where
  /-- The whole seconds since the start of 1970. -/
  count : Int
  /-- Whether it is the leap second that follows this second. -/
  leap : Bool
  deriving DecidableEq, Repr

/-- The time without what is shorter than a second. -/
def whole (t : Timestamp) : Second := ⟨t.seconds, t.isLeap⟩

/-- What a date shows. -/
structure Shown where
  weekday : String
  date : Calendar.Date
  hour : Nat
  minute : Nat
  second : Nat
  deriving DecidableEq, Repr

namespace Shown

/-- Reads a date in a header. -/
def read? (text : String) : Option Shown :=
  match text.toList.splitOn ' ' with
  | [name, day, month, year, clock, zone] =>
    match name.splitOn ',', clock.splitOn ':' with
    | [weekday, []], [hour, minute, second] => do
      guard (zone = ['G', 'M', 'T'])
      let day ← Decimal.number? day
      let month ← Calendar.monthNames.idxOf? (String.ofList month)
      let year ← Decimal.integer? year
      let hour ← Decimal.number? hour
      let minute ← Decimal.number? minute
      let second ← Decimal.number? second
      return ⟨String.ofList weekday, ⟨year, month + 1, day⟩, hour, minute, second⟩
    | _, _ => none
  | _ => none

/-- The second that is shown, counted by the calendar. Second 60 of a minute is the leap second that
follows its second 59. -/
def moment (r : Shown) : Second where
  count := 86400 * r.date.number + 3600 * r.hour + 60 * r.minute + min r.second 59
  leap := r.second = 60

end Shown

/-- What the date of a time shows. -/
def shown (t : Timestamp) : Shown where
  weekday := Calendar.weekdayName t.days
  date := t.date
  hour := t.hour
  minute := t.minute
  second := t.second

/-- The fields of a date, which have no spaces in them. -/
def fields (t : Timestamp) : List (List Char) := [
  (Calendar.weekdayName t.days).toList ++ [','], Decimal.padded 2 t.date.day,
  (Calendar.monthName t.date.month).toList, yearText t.date.year, t.clock, ['G', 'M', 'T']]

theorem httpDateChars_eq (t : Timestamp) : t.httpDateChars = [' '].intercalate t.fields := by
  simp [httpDateChars, fields, List.intercalate_cons_cons, List.intercalate_singleton]

theorem clock_eq (t : Timestamp) : t.clock = [':'].intercalate
    [Decimal.padded 2 t.hour, Decimal.padded 2 t.minute, Decimal.padded 2 t.second] := by
  simp [clock, List.intercalate_cons_cons, List.intercalate_singleton]

/-! ## What stands in the fields -/

theorem weekdayName_mem (days : Int) : Calendar.weekdayName days ∈ Calendar.weekdayNames := by
  have inWeek : Calendar.weekday days < Calendar.weekdayNames.length := by
    show Calendar.weekday days < 7
    unfold Calendar.weekday
    omega
  rw [Calendar.weekdayName, List.getD_eq_getElem _ _ inWeek]
  exact List.getElem_mem inWeek

/-- The names of weekdays and of months are made of letters. -/
theorem letters {name : String} {c : Char}
    (named : name ∈ Calendar.weekdayNames ∨ name ∈ Calendar.monthNames) (mem : c ∈ name.toList) :
    c.isAlpha = true := by
  have all : ∀ name ∈ Calendar.weekdayNames ++ Calendar.monthNames,
      name.toList.all Char.isAlpha = true := by decide
  exact List.all_eq_true.mp (all name (List.mem_append.mpr named)) c mem

/-- The months can be told by their names. -/
theorem idxOf?_monthName {month : Nat} (pos : 1 ≤ month) (le : month ≤ 12) :
    Calendar.monthNames.idxOf? (Calendar.monthName month) = some (month - 1) := by
  interval_cases month <;> decide

theorem monthName_mem {month : Nat} (pos : 1 ≤ month) (le : month ≤ 12) :
    Calendar.monthName month ∈ Calendar.monthNames := by
  have inYear : month - 1 < Calendar.monthNames.length := by
    show month - 1 < 12
    omega
  rw [Calendar.monthName, List.getD_eq_getElem _ _ inYear]
  exact List.getElem_mem inYear

theorem mem_yearText {year : Int} {c : Char} (mem : c ∈ yearText year) :
    c.isDigit = true ∨ c = '+' ∨ c = '-' := by
  unfold yearText at mem
  split at mem
  · exact .inl (Decimal.isDigit_padded mem)
  · rcases List.mem_cons.mp mem with rfl | digit
    · split <;> simp
    · exact .inl (Decimal.isDigit_padded digit)

theorem integer?_yearText (year : Int) : Decimal.integer? (yearText year) = some year := by
  unfold yearText
  split
  · rw [Decimal.integer?_padded]
    exact congrArg some (by omega)
  · exact Decimal.integer?_signed 4 year

theorem mem_clock {t : Timestamp} {c : Char} (mem : c ∈ t.clock) : c.isDigit = true ∨ c = ':' := by
  simp only [clock, List.mem_append, List.mem_cons] at mem
  rcases mem with (digit | colon | digit) | colon | digit
  · exact .inl (Decimal.isDigit_padded digit)
  · exact .inr colon
  · exact .inl (Decimal.isDigit_padded digit)
  · exact .inr colon
  · exact .inl (Decimal.isDigit_padded digit)

/-- What is neither a letter nor a digit in a field. -/
theorem mem_fields (t : Timestamp) : ∀ field ∈ t.fields, ∀ c ∈ field,
    c.isAlphanum = true ∨ c ∈ [',', ':', '+', '-'] := by
  have valid := (Calendar.number_ofDays t.days).1
  have letter {c : Char} (alpha : c.isAlpha = true) : c.isAlphanum = true := by
    simp [Char.isAlphanum, alpha]
  have figure {c : Char} (digit : c.isDigit = true) : c.isAlphanum = true := by
    simp [Char.isAlphanum, digit]
  intro field mem c mem'
  simp only [fields, List.mem_cons, List.not_mem_nil, or_false] at mem
  rcases mem with rfl | rfl | rfl | rfl | rfl | rfl
  · rcases List.mem_append.mp mem' with name | comma
    · exact .inl (letter (letters (.inl (weekdayName_mem t.days)) name))
    · right
      simp [List.mem_singleton.mp comma]
  · exact .inl (figure (Decimal.isDigit_padded mem'))
  · have month := monthName_mem valid.month_pos valid.month_le
    exact .inl (letter (letters (.inr month) mem'))
  · rcases mem_yearText mem' with digit | rfl | rfl
    · exact .inl (figure digit)
    · right
      simp
    · right
      simp
  · rcases mem_clock mem' with digit | rfl
    · exact .inl (figure digit)
    · right
      simp
  · have zone : ['G', 'M', 'T'].all Char.isAlphanum = true := by decide
    exact .inl (List.all_eq_true.mp zone c mem')

/-- What is neither a letter nor a digit in a date. -/
theorem mem_httpDateChars {t : Timestamp} {c : Char} (mem : c ∈ t.httpDateChars) :
    c.isAlphanum = true ∨ c ∈ [' ', ',', ':', '+', '-'] := by
  rw [httpDateChars_eq] at mem
  rcases mem_intercalate mem with rfl | ⟨field, there, inside⟩
  · right
    simp
  · rcases t.mem_fields field there c inside with alphanum | mark
    · exact .inl alphanum
    · exact .inr (List.mem_cons_of_mem _ mark)

theorem splitOn_httpDateChars (t : Timestamp) : t.httpDateChars.splitOn ' ' = t.fields := by
  rw [httpDateChars_eq]
  refine splitOn_intercalate_of (by simp [fields]) ?_
  rintro field mem c mem' rfl
  rcases t.mem_fields field mem ' ' mem' with alphanum | mark
  · exact absurd alphanum (by decide)
  · exact absurd mark (by decide)

theorem splitOn_clock (t : Timestamp) : t.clock.splitOn ':' =
    [Decimal.padded 2 t.hour, Decimal.padded 2 t.minute, Decimal.padded 2 t.second] := by
  rw [clock_eq]
  refine splitOn_intercalate_of (by simp) ?_
  rintro field mem c mem' rfl
  have digit : ':'.isDigit = true := by
    simp only [List.mem_cons, List.not_mem_nil, or_false] at mem
    rcases mem with rfl | rfl | rfl <;> exact Decimal.isDigit_padded mem'
  exact absurd digit (by decide)

theorem splitOn_weekday (days : Int) :
    ((Calendar.weekdayName days).toList ++ [',']).splitOn ',' =
      [(Calendar.weekdayName days).toList, []] := by
  have two : (Calendar.weekdayName days).toList ++ [','] =
      [','].intercalate [(Calendar.weekdayName days).toList, []] := by
    simp [List.intercalate_cons_cons, List.intercalate_singleton]
  rw [two]
  refine splitOn_intercalate_of (by simp) ?_
  rintro field mem c mem' rfl
  simp only [List.mem_cons, List.not_mem_nil, or_false] at mem
  rcases mem with rfl | rfl
  · have alpha := letters (.inl (weekdayName_mem days)) mem'
    exact absurd alpha (by decide)
  · cases mem'

/-! ## Dates read back -/

/-- What is read from the date of a time is what it shows. -/
theorem read?_httpDate (t : Timestamp) : Shown.read? t.httpDate = some t.shown := by
  have valid := (Calendar.number_ofDays t.days).1
  have month : Calendar.monthNames.idxOf? (Calendar.monthName t.date.month) =
      some (t.date.month - 1) := idxOf?_monthName valid.month_pos valid.month_le
  have back : t.date.month - 1 + 1 = t.date.month := Nat.sub_add_cancel valid.month_pos
  rw [Shown.read?, httpDate, String.toList_ofList, splitOn_httpDateChars]
  simp only [fields, splitOn_weekday, splitOn_clock, Decimal.number?_padded, String.ofList_toList,
    integer?_yearText, month]
  simp [guard, back, shown]

/-- A leap second stands at the end of a minute. -/
def Placed (t : Timestamp) : Prop := t.isLeap = true → t.seconds % 60 = 59

theorem Representable.placed {t : Timestamp} (representable : t.Representable) : t.Placed := by
  intro leap
  obtain ⟨_, _, short | ⟨placed, _⟩⟩ := representable
  · have long : billion ≤ t.nanos := of_decide_eq_true leap
    omega
  · exact placed

/-- What a date shows stands for the second of the time. -/
theorem moment_shown {t : Timestamp} (placed : t.Placed) : t.shown.moment = t.whole := by
  have number : t.date.number = t.days := (Calendar.number_ofDays t.days).2
  have leap : t.second = t.secondOfDay % 60 + if t.isLeap = true then 1 else 0 := rfl
  unfold Placed at placed
  simp only [Shown.moment, whole, shown, number, Second.mk.injEq]
  unfold hour minute
  unfold days secondOfDay at *
  by_cases isLeap : t.isLeap = true
  · have last := placed isLeap
    rw [if_pos isLeap] at leap
    rw [isLeap]
    constructor
    · omega
    · exact decide_eq_true (by omega)
  · rw [if_neg isLeap] at leap
    rw [Bool.not_eq_true] at isLeap
    rw [isLeap]
    constructor
    · omega
    · exact decide_eq_false (by omega)

/-- Times have the same date if they lie in the same second. -/
theorem httpDate_eq_iff {t u : Timestamp} (placed : t.Placed) (placed' : u.Placed) :
    t.httpDate = u.httpDate ↔ t.whole = u.whole := by
  constructor
  · intro same
    have read := t.read?_httpDate
    rw [same, u.read?_httpDate] at read
    rw [← moment_shown placed, ← moment_shown placed', Option.some.inj read]
  · intro same
    obtain ⟨seconds, leap⟩ := Second.mk.inj same
    simp only [httpDate, httpDateChars, clock, hour, minute, second, date, days, secondOfDay,
      seconds, leap]

/-- **A date in a header tells the second, and nothing is lost but what is shorter.** The date of
any representable time can be read: it shows a date of the calendar, a time of day, and the weekday
of the date. Counted by the rules of the calendar, what it shows is the second in which the time
lies, where second 60 of a minute is the leap second that follows second 59. So two times have the
same date exactly if they lie in the same second. -/
theorem date_tells_second (t : Timestamp) (representable : t.Representable) :
    (∃ r, Shown.read? t.httpDate = some r ∧ r.date.Valid ∧ r.hour < 24 ∧ r.minute < 60 ∧
      r.second ≤ 60 ∧ r.moment = t.whole ∧ r.weekday = Calendar.weekdayName r.date.number) ∧
    ∀ u : Timestamp, u.Representable → (t.httpDate = u.httpDate ↔ t.whole = u.whole) := by
  have placed := representable.placed
  constructor
  · obtain ⟨valid, number⟩ := Calendar.number_ofDays t.days
    have number : t.shown.date.number = t.days := number
    refine ⟨t.shown, t.read?_httpDate, valid, ?_, ?_, ?_, moment_shown placed, ?_⟩
    · show t.secondOfDay / 3600 < 24
      unfold secondOfDay
      omega
    · exact Nat.mod_lt _ (by decide)
    · show (t.secondOfDay % 60 + if t.isLeap = true then 1 else 0) ≤ 60
      split <;> omega
    · rw [number]
      rfl
  · intro u representable'
    exact httpDate_eq_iff placed representable'.placed

/-- The leap second at the end of the year before the year 0 is told apart from the second before
it. -/
theorem leap_second_told :
    let t : Timestamp := ⟨-62167219201, 1500000000⟩
    let u : Timestamp := ⟨-62167219201, 999999999⟩
    t.Representable ∧ u.Representable ∧ t.httpDate = "Fri, 31 Dec -0001 23:59:60 GMT" ∧
      t.httpDate ≠ u.httpDate ∧ ∃ r, Shown.read? t.httpDate = some r ∧ r.moment = t.whole := by
  intro t u
  have representable : t.Representable := by decide
  have representable' : u.Representable := by decide
  obtain ⟨⟨r, read, _, _, _, _, moment, _⟩, apart⟩ := date_tells_second t representable
  refine ⟨representable, representable', by decide +kernel, ?_, r, read, moment⟩
  intro same
  have whole := (apart u representable').mp same
  exact absurd whole (by decide)

end Timestamp

end Docroot
