import PageAssembly.Text.Run
import PageAssembly.Yaml.Fault

/-!
# Points in time in YAML

## Main definitions

* `Yaml.Timestamp` — a date, with a time of day or without
* `Yaml.timestamp?` — the point in time that a plain scalar stands for
* `Timestamp.check` — whether there is such a date and such a time
* `Timestamp.shown` — how a point in time is shown

## Design notes

A date has two digits for its month and its day, but one digit is enough when a time follows.  The
time of another zone is moved to universal time, which may change the date.
-/

namespace PageAssembly.Yaml

/-- A time of day. -/
structure TimeOfDay where
  /-- The hour. -/
  hour : Nat
  /-- The minute. -/
  minute : Nat
  /-- The second. -/
  second : Nat
  /-- The millionth parts of a second. -/
  micro : Nat := 0
  deriving DecidableEq, Repr

/-- A date, with a time of day or without. -/
structure Timestamp where
  /-- The year. -/
  year : Nat
  /-- The month, from one. -/
  month : Nat
  /-- The day of the month, from one. -/
  day : Nat
  /-- The time of day. -/
  time : Option TimeOfDay := none
  /-- The minutes by which the zone of the time is ahead of universal time. -/
  zone : Int := 0
  deriving DecidableEq, Repr

/-- The number that decimal digits spell, for a count of digits in the given range, and the rest. -/
def digits? (least most : Nat) (s : Text) : Option (Nat × Text) :=
  let digits := (s.take most).takeWhile Text.isDigit
  if least ≤ digits.length then
    some (digits.foldl (fun n c => 10 * n + (c.toNat - 48)) 0, s.drop digits.length)
  else none

/-- The text behind a character that it starts with. -/
def behindChar? (c : Char) : Text → Option Text
  | d :: s => if c = d then some s else none
  | [] => none

/-- The text behind the blanks that it starts with. -/
def behindBlanks (s : Text) : Text := s.dropWhile fun c => c == ' ' || c == '\t'

/-- The millionth parts of a second that the digits behind the point stand for, rounded half up. -/
def microOf (digits : Text) : Nat :=
  let value := ((digits.take 6 ++ List.replicate (6 - digits.length) '0').foldl
    (fun n c => 10 * n + (c.toNat - 48)) 0)
  let value := if (digits.drop 6).head?.any ('4' < ·) then value + 1 else value
  if 999999 < value then 0 else value

/-- The zone that a time ends with, in minutes; the text holds nothing else. -/
def zone? (s : Text) : Option Int := do
  match behindBlanks s with
  | [] => if s.isEmpty then some 0 else none
  | ['Z'] => some 0
  | sign :: rest =>
    if sign ≠ '+' ∧ sign ≠ '-' then none
    let (hours, rest) ← digits? 1 2 rest
    let minutes ← match rest with
      | [] => some 0
      | _ => do
        let (minutes, rest) ← digits? 2 2 (← behindChar? ':' rest)
        if rest.isEmpty then some minutes else none
    let size : Int := (60 * hours + minutes : Nat)
    return if sign = '-' then -size else size

/-- The point in time that a plain scalar stands for. -/
def timestamp? (s : Text) : Option Timestamp := do
  let (year, rest) ← digits? 4 4 s
  let (month, atDay) ← digits? 1 2 (← behindChar? '-' rest)
  let (day, rest) ← digits? 1 2 (← behindChar? '-' atDay)
  match rest with
  | [] => if s.length = 10 then some { year, month, day } else none
  | c :: atTime =>
    if c ≠ 'T' ∧ c ≠ 't' ∧ c ≠ ' ' ∧ c ≠ '\t' then none
    let (hour, rest) ← digits? 1 2 (if c = 'T' ∨ c = 't' then atTime else behindBlanks rest)
    let (minute, rest) ← digits? 2 2 (← behindChar? ':' rest)
    let (second, rest) ← digits? 2 2 (← behindChar? ':' rest)
    let (part, rest) := match rest with
      | '.' :: rest => Text.run Text.isDigit rest
      | _ => ([], rest)
    let zone ← zone? rest
    return { year, month, day, zone, time := some { hour, minute, second, micro := microOf part } }

/-! ## Calendar -/

/-- Whether a year has a day more. -/
def isLeapYear (year : Nat) : Bool := year % 4 == 0 && (year % 100 != 0 || year % 400 == 0)

/-- The number of days of a month. -/
def daysOf (year month : Nat) : Nat :=
  if month = 2 then (if isLeapYear year then 29 else 28)
  else if month = 4 ∨ month = 6 ∨ month = 9 ∨ month = 11 then 30 else 31

/-- The date one day earlier; the year may become zero. -/
def Timestamp.dayBefore (t : Timestamp) : Timestamp :=
  if 1 < t.day then { t with day := t.day - 1 }
  else if 1 < t.month then { t with month := t.month - 1, day := daysOf t.year (t.month - 1) }
  else { t with year := t.year - 1, month := 12, day := 31 }

/-- The date one day later. -/
def Timestamp.dayAfter (t : Timestamp) : Timestamp :=
  if t.day < daysOf t.year t.month then { t with day := t.day + 1 }
  else if t.month < 12 then { t with month := t.month + 1, day := 1 }
  else { t with year := t.year + 1, month := 1, day := 1 }

/-- The number of minutes of a day. -/
def minutesOfDay : Int := 1440

/-- A date moved by a number of days. -/
def Timestamp.moved (t : Timestamp) (days : Int) : Timestamp :=
  if days < 0 then days.natAbs.repeat Timestamp.dayBefore t
  else days.natAbs.repeat Timestamp.dayAfter t

/-- The same point in time in universal time. -/
def Timestamp.universal (t : Timestamp) : Timestamp :=
  match t.time with
  | none => t
  | some time =>
    let minutes : Int := (60 * time.hour + time.minute : Nat) - t.zone
    let minute := (minutes % minutesOfDay).toNat
    { t.moved (minutes / minutesOfDay) with
      zone := 0
      time := some { time with hour := minute / 60, minute := minute % 60 } }

/-- Finds out what is wrong with a date or a time. -/
def Timestamp.check (t : Timestamp) : Except ScalarFault Unit := do
  if t.year = 0 ∨ 9999 < t.year then throw (.year t.year)
  if t.month = 0 ∨ 12 < t.month then throw .month
  if t.day = 0 ∨ daysOf t.year t.month < t.day then throw .day
  if let some time := t.time then
    if 23 < time.hour then throw .hour
    if 59 < time.minute then throw .minute
    if 59 < time.second then throw .second

/-- The numbers that a point in time is shown with; seconds only when they are not zero. -/
def Timestamp.fields (t : Timestamp) : List Nat :=
  [t.year, t.month, t.day] ++
    match t.time with
    | none => []
    | some time =>
      [time.hour, time.minute] ++
        (if time.second = 0 ∧ time.micro = 0 then [] else [time.second]) ++
        if time.micro = 0 then [] else [time.micro]

/-- How a point in time is shown. -/
def Timestamp.shown (t : Timestamp) : Text :=
  let kind := if t.time.isSome then "datetime.datetime(" else "datetime.date("
  let numbers := t.fields.map fun n => (toString n).toList
  kind.toList ++ [',', ' '].intercalate numbers ++ [')']

end PageAssembly.Yaml
