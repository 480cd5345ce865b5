import FlowAnalysis.Number.Literal
import FlowAnalysis.Text.Blank

/-!
# Cron expressions

A cron expression has five fields: minute, hour, day of the month, month and day of the week.  A
field is a list of items, each an arithmetic progression, and stands for the set of all their
values.  Days of the week count from Sunday, which is written as 0 or 7 and kept as 0.
-/

namespace FlowAnalysis

/-- A field of a cron expression: its name, its range and the words for its values. -/
structure CronField where
  name : String
  least : Nat
  greatest : Nat
  words : List String
  deriving DecidableEq, Repr, Inhabited

namespace CronField

/-- The minute of the hour. -/
def minute : CronField := ⟨"minute", 0, 59, []⟩

/-- The hour of the day. -/
def hour : CronField := ⟨"hour", 0, 23, []⟩

/-- The day of the month. -/
def dayOfMonth : CronField := ⟨"day-of-month", 1, 31, []⟩

/-- The month of the year. -/
def month : CronField :=
  ⟨"month", 1, 12,
    ["JAN", "FEB", "MAR", "APR", "MAY", "JUN", "JUL", "AUG", "SEP", "OCT", "NOV", "DEC"]⟩

/-- The day of the week. -/
def dayOfWeek : CronField :=
  ⟨"day-of-week", 0, 7, ["SUN", "MON", "TUE", "WED", "THU", "FRI", "SAT"]⟩

end CronField

/-- Why a text is no cron expression. -/
inductive CronError
  | fieldCount (found : Nat)
  | empty (field : String)
  | invalidValue (field value : String)
  | outOfRange (field : String) (value least greatest : Nat)
  | invalidStep (field value : String)
  | reversedRange (field : String) (first last : Nat)
  deriving DecidableEq, Repr, Inhabited

namespace CronError

/-- The word for the kind of an error. -/
def kind : CronError → String
  | fieldCount _ => "FieldCount"
  | empty _ => "Empty"
  | invalidValue .. => "InvalidValue"
  | outOfRange .. => "OutOfRange"
  | invalidStep .. => "InvalidStep"
  | reversedRange .. => "ReversedRange"

/-- The message of an error. -/
def message : CronError → String
  | fieldCount n => s!"expected 5 fields, found {n}"
  | empty f => s!"{f} field is empty"
  | invalidValue f v => s!"invalid {f} value '{v}'"
  | outOfRange f v least greatest => s!"{f} value {v} is out of range {least}-{greatest}"
  | invalidStep f v => s!"invalid {f} step '{v}'"
  | reversedRange f first last => s!"{f} range {first}-{last} is reversed"

end CronError

/-- An arithmetic progression: from `first` to `last` in steps. -/
structure CronItem where
  first : Nat
  last : Nat
  step : Nat
  deriving DecidableEq, Repr, Inhabited

/-- Puts a value into an ascending list, unless it is there. -/
def insertValue (v : Nat) : List Nat → List Nat
  | [] => [v]
  | w :: ws =>
    if v < w then v :: w :: ws
    else if v = w then w :: ws
    else w :: insertValue v ws

namespace CronItem

/-- The values of the progression, in order. -/
def values (i : CronItem) : List Nat :=
  List.range' i.first ((i.last + i.step - i.first) / i.step) i.step

/-- The values of all the items, ascending. -/
def union (is : List CronItem) : List Nat :=
  is.foldl (fun set i => i.values.foldl (fun set v => insertValue v set) set) []

end CronItem

/-- The sets of values on which a cron expression fires, each ascending. -/
structure CronExpression where
  minutes : List Nat
  hours : List Nat
  daysOfMonth : List Nat
  months : List Nat
  daysOfWeek : List Nat
  deriving DecidableEq, Repr, Inhabited

namespace CronField

/-- The largest number that a value or a step can be. -/
def numberBound : Nat := 0xFFFFFFFF

/-- An ASCII letter in upper case. -/
def upper (s : String) : String := s.map Char.toUpper

/-- A value of the field, as a word or as a number. -/
def value (f : CronField) (s : String) : Except CronError Nat :=
  match f.words.findIdx? (· == upper s) with
  | some i => .ok (i + f.least)
  | none =>
    match Number.bounded? numberBound s with
    | some n =>
      if n < f.least || f.greatest < n then .error (.outOfRange f.name n f.least f.greatest)
      else .ok n
    | none => .error (.invalidValue f.name s)

/-- The step after a slash. -/
def step (f : CronField) (s : String) : Except CronError Nat :=
  match Number.bounded? numberBound s with
  | some 0 => .error (.invalidStep f.name "0")
  | some n => .ok n
  | none => .error (.invalidStep f.name s)

/-- A text around the first occurrence of a character. -/
def splitFirst (c : Char) (s : String) : Option (String × String) :=
  match s.toList.span (· != c) with
  | (before, _ :: after) => some (String.ofList before, String.ofList after)
  | (_, []) => none

/-- The first and the last value of an item; a single value with a step above one runs to the end of
the field. -/
def range (f : CronField) (s : String) (step : Nat) : Except CronError (Nat × Nat) :=
  if s == "*" then .ok (f.least, f.greatest)
  else
    match splitFirst '-' s with
    | some (a, b) => do
      let first ← f.value a
      let last ← f.value b
      return (first, last)
    | none => do
      let v ← f.value s
      return (v, if 1 < step then f.greatest else v)

/-- One item of a field. -/
def item (f : CronField) (s : String) : Except CronError CronItem :=
  if s.isEmpty then .error (.empty f.name)
  else do
    let (text, step) ←
      match splitFirst '/' s with
      | some (text, step) => do
        let n ← f.step step
        pure (text, n)
      | none => pure (s, 1)
    let (first, last) ← f.range text step
    if last < first then .error (.reversedRange f.name first last)
    else return ⟨first, last, step⟩

/-- The items of a field, between commas. -/
def items (f : CronField) (s : String) : Except CronError (List CronItem) :=
  ((Text.pieces (· == ',') s.toList).map String.ofList).mapM f.item

/-- The set of values that a field stands for. -/
def parse (f : CronField) (s : String) : Except CronError (List Nat) :=
  CronItem.union <$> f.items s

end CronField

namespace CronExpression

/-- The expression that a shorthand stands for. -/
def expand : String → String
  | "@yearly" | "@annually" => "0 0 1 1 *"
  | "@monthly" => "0 0 1 * *"
  | "@weekly" => "0 0 * * 0"
  | "@daily" | "@midnight" => "0 0 * * *"
  | "@hourly" => "0 * * * *"
  | s => s

/-- The days of the week with Sunday as 0 only. -/
def foldSunday (days : List Nat) : List Nat :=
  if days.contains 7 then insertValue 0 (days.erase 7) else days

/-- Reads a cron expression. -/
def parse (s : String) : Except CronError CronExpression :=
  match Text.words (expand (Text.trim s)) with
  | [minutes, hours, daysOfMonth, months, daysOfWeek] => do
    let minutes ← CronField.minute.parse minutes
    let hours ← CronField.hour.parse hours
    let daysOfMonth ← CronField.dayOfMonth.parse daysOfMonth
    let months ← CronField.month.parse months
    let daysOfWeek ← CronField.dayOfWeek.parse daysOfWeek
    return ⟨minutes, hours, daysOfMonth, months, foldSunday daysOfWeek⟩
  | fields => .error (.fieldCount fields.length)

end CronExpression

end FlowAnalysis
