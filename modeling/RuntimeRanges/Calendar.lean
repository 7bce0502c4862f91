import RuntimeRanges.Text.Cut

/-!
Days and points in time of the Gregorian calendar. Both are made from numbers that are checked one by one;
a point in time may tell how far its clock is ahead of the standard one, and two such points are the same
when they fall together, whatever their clocks show.
-/

namespace RuntimeRanges.Calendar

/-- Why numbers make no day or point in time. -/
inductive Fault
  | year (n : Nat)
  | month
  | day
  | hour
  | minute
  | second
  | offset (seconds : Int)
  deriving DecidableEq, Repr

def daySeconds : Nat := 86400

/-- A length of time as messages show it, in days and in the seconds left over. -/
def durationLiteral (seconds : Int) : String :=
  let days := seconds / daySeconds
  let rest := seconds % daySeconds
  let parts :=
    (if days = 0 then [] else ["days=" ++ toString days]) ++
      if rest = 0 then [] else ["seconds=" ++ toString rest]
  "datetime.timedelta(" ++ (if parts.isEmpty then "0" else Text.separated ", " parts) ++ ")"

def Fault.message : Fault → String
  | year n => "year " ++ toString n ++ " is out of range"
  | month => "month must be in 1..12"
  | day => "day is out of range for month"
  | hour => "hour must be in 0..23"
  | minute => "minute must be in 0..59"
  | second => "second must be in 0..59"
  | offset seconds =>
    "offset must be a timedelta strictly between -timedelta(hours=24) and timedelta(hours=24), not " ++
      durationLiteral seconds ++ "."

def isLeap (year : Nat) : Bool :=
  year % 4 == 0 && (year % 100 != 0 || year % 400 == 0)

def monthLength (year month : Nat) : Nat :=
  if month = 2 then if isLeap year then 29 else 28
  else if month = 4 ∨ month = 6 ∨ month = 9 ∨ month = 11 then 30
  else 31

structure Date where
  year : Nat
  month : Nat
  day : Nat
  year_pos : 1 ≤ year
  month_valid : 1 ≤ month ∧ month ≤ 12
  day_valid : 1 ≤ day ∧ day ≤ monthLength year month
  deriving DecidableEq, Repr

/-- A number with zeros in front up to the given number of digits. -/
def padded (width n : Nat) : String :=
  let digits := Nat.toDigits 10 n
  String.ofList (List.replicate (width - digits.length) '0' ++ digits)

namespace Date

def make (year month day : Nat) : Except Fault Date :=
  if hy : 1 ≤ year then
    if hm : 1 ≤ month ∧ month ≤ 12 then
      if hd : 1 ≤ day ∧ day ≤ monthLength year month then .ok ⟨year, month, day, hy, hm, hd⟩
      else .error .day
    else .error .month
  else .error (.year year)

def text (d : Date) : String :=
  padded 4 d.year ++ "-" ++ padded 2 d.month ++ "-" ++ padded 2 d.day

def numbers (d : Date) : List Nat :=
  [d.year, d.month, d.day]

def literal (d : Date) : String :=
  "datetime.date(" ++ Text.separated ", " (d.numbers.map toString) ++ ")"

def daysBeforeMonth (year : Nat) : Nat → Nat
  | 0 => 0
  | month + 1 => if month = 0 then 0 else daysBeforeMonth year month + monthLength year month

/-- The number of a day, counted from the first day of the first year. -/
def ordinal (d : Date) : Nat :=
  let before := d.year - 1
  before * 365 + before / 4 - before / 100 + before / 400 + daysBeforeMonth d.year d.month + d.day

example : (make 2024 2 29).toOption.map ordinal = some 738945 := by decide +kernel

end Date

/-- A point in time. `offset` is the number of seconds that its clock is ahead of the standard one. -/
structure Moment where
  date : Date
  hour : Nat
  minute : Nat
  second : Nat
  micro : Nat
  offset : Option Int
  deriving DecidableEq, Repr

namespace Moment

/-- Whether a clock may be so far ahead: by less than a day. -/
def isOffset (seconds : Int) : Bool :=
  -(daySeconds : Int) < seconds && seconds < daySeconds

/-- The point in time with the given numbers; the offset is looked at first. -/
def make (year month day hour minute second micro : Nat) (offset : Option Int) : Except Fault Moment :=
  match offset.filter fun seconds => !isOffset seconds with
  | some seconds => .error (.offset seconds)
  | none => do
    let date ← Date.make year month day
    if 24 ≤ hour then .error .hour
    else if 60 ≤ minute then .error .minute
    else if 60 ≤ second then .error .second
    else return ⟨date, hour, minute, second, micro, offset⟩

def offsetText (seconds : Int) : String :=
  let minutes := seconds.natAbs / 60
  (if seconds < 0 then "-" else "+") ++ padded 2 (minutes / 60) ++ ":" ++ padded 2 (minutes % 60)

/-- The text of a point in time; parts of a second are left out where there are none. -/
def text (m : Moment) : String :=
  m.date.text ++ " " ++ padded 2 m.hour ++ ":" ++ padded 2 m.minute ++ ":" ++ padded 2 m.second ++
    (if m.micro = 0 then "" else "." ++ padded 6 m.micro) ++ (m.offset.map offsetText).getD ""

/-- The numbers of a point in time as messages show them: seconds and parts of a second are left out where
nothing but zeros follows. -/
def numbers (m : Moment) : List Nat :=
  m.date.numbers ++ [m.hour, m.minute] ++
    if m.micro = 0 then if m.second = 0 then [] else [m.second] else [m.second, m.micro]

def offsetLiteral (seconds : Int) : String :=
  "tzinfo=datetime.timezone" ++
    if seconds = 0 then ".utc" else "(" ++ durationLiteral seconds ++ ")"

def literal (m : Moment) : String :=
  "datetime.datetime(" ++
    Text.separated ", " (m.numbers.map toString ++ (m.offset.map offsetLiteral).toList) ++ ")"

/-- The seconds of the standard clock from the first day on, and the parts of a second. -/
def instant (m : Moment) (offset : Int) : Int × Nat :=
  ((m.date.ordinal * daySeconds + m.hour * 3600 + m.minute * 60 + m.second : Nat) - offset, m.micro)

/-- Whether two points in time are the same: both without an offset and equal, or both at one instant. -/
def same (m n : Moment) : Bool :=
  match m.offset, n.offset with
  | none, none => m == n
  | some i, some j => m.instant i == n.instant j
  | _, _ => false

theorem same_refl (m : Moment) : m.same m = true := by
  cases h : m.offset <;> simp [same, h]

theorem same_comm (m n : Moment) : m.same n = n.same m := by
  cases hm : m.offset <;> cases hn : n.offset <;> simp [same, hm, hn, Bool.beq_comm]

theorem same_trans {l m n : Moment} (hlm : l.same m = true) (hmn : m.same n = true) : l.same n = true := by
  cases hl : l.offset <;> cases hm : m.offset <;> cases hn : n.offset <;> simp_all [same]

example :
    (make 2001 2 3 0 0 1 0 (some 0)).toOption.map literal =
        some "datetime.datetime(2001, 2, 3, 0, 0, 1, tzinfo=datetime.timezone.utc)" ∧
      (make 2001 2 3 4 5 0 5 (some 19800)).toOption.map text = some "2001-02-03 04:05:00.000005+05:30" := by
  decide +kernel

end Moment

end RuntimeRanges.Calendar
