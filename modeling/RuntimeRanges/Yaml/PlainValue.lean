import RuntimeRanges.Decimal.Arithmetic
import RuntimeRanges.Document.Json

/-!
What plain scalars stand for: nothing, truth values, integers and floating-point numbers in several notations,
days and points in time, and texts. Numbers may be written with places of sixty, and with underscores between
their digits.
-/

namespace RuntimeRanges.Yaml

/-- Why a plain scalar that looks like a number or a point in time is none. -/
inductive ValueFault
  | numeral (e : Numeral.LimitError)
  /-- There are only underscores after the mark of a base. -/
  | noDigits (base : Nat)
  /-- A place of a floating-point number counts more than the largest such number. -/
  | placeTooLarge
  | calendar (f : Calendar.Fault)
  deriving DecidableEq, Repr

def ValueFault.message : ValueFault → String
  | numeral e => e.message
  | noDigits base => "invalid literal for int() with base " ++ toString base ++ ": ''"
  | placeTooLarge => "int too large to convert to float"
  | calendar f => f.message

def trueWords : List String :=
  ["yes", "Yes", "YES", "true", "True", "TRUE", "on", "On", "ON"]

def falseWords : List String :=
  ["no", "No", "NO", "false", "False", "FALSE", "off", "Off", "OFF"]

def nullWords : List String :=
  ["~", "null", "Null", "NULL", ""]

def word? (s : String) : Option Scalar :=
  if trueWords.contains s then some (.bool true)
  else if falseWords.contains s then some (.bool false)
  else if nullWords.contains s then some .null
  else none

/-! ### Numbers -/

/-- Whether the text holds only digits of the given kind and underscores, and something at all. -/
def allDigits (isDigit : Char → Bool) (cs : List Char) : Bool :=
  !cs.isEmpty && cs.all fun c => isDigit c || c == '_'

/-- Whether the text holds only digits and underscores, the first of them a digit. -/
def isRun (cs : List Char) : Bool :=
  allDigits Char.isDigit cs && cs.head?.any Char.isDigit

def plainDigits (cs : List Char) : List Char :=
  cs.filter (· != '_')

/-- The number that digits of a base stand for; there has to be one. -/
def inBase (base : Nat) (cs : List Char) : Except ValueFault Nat :=
  match plainDigits cs with
  | [] => .error (.noDigits base)
  | digits => .ok (digits.foldl (fun n c => n * base + (Json.hexValue? c).getD 0) 0)

def inTens (cs : List Char) : Except ValueFault Nat :=
  (Numeral.read (plainDigits cs)).mapError .numeral

/-- Whether the text is a place of sixty: a digit, or two digits below 60. -/
def isPlace (cs : List Char) : Bool :=
  cs.all Char.isDigit && (cs.length == 1 || (cs.length == 2 && cs.head?.any (· < '6')))

/-- The integer that places of sixty stand for. -/
def sixties? (cs : List Char) : Option (Except ValueFault Nat) :=
  match Text.splitAt ':' cs with
  | first :: second :: more =>
    let places := second :: more
    if isRun first && first.head? != some '0' && places.all isPlace then
      some ((inTens first).map (places.foldl (fun n p => n * 60 + Numeral.value p)))
    else none
  | _ => none

def natural? (cs : List Char) : Option (Except ValueFault Nat) :=
  match cs with
  | '0' :: 'b' :: digits =>
    if allDigits (fun c => c == '0' || c == '1') digits then some (inBase 2 digits) else none
  | '0' :: 'x' :: digits =>
    if allDigits (fun c => (Json.hexValue? c).isSome) digits then some (inBase 16 digits) else none
  | '0' :: _ => if allDigits (fun c => '0' ≤ c && c ≤ '7') cs then some (inBase 8 cs) else none
  | _ => if isRun cs then some (inTens cs) else sixties? cs

/-- The exponent that the end of a floating-point number gives; it has a sign. -/
def exponent? : List Char → Option Int
  | [] => some 0
  | e :: sign :: digits =>
    if (e == 'e' || e == 'E') && (sign == '-' || sign == '+') && !digits.isEmpty && digits.all Char.isDigit then
      let n : Int := Numeral.value digits
      some (if sign == '-' then -n else n)
    else none
  | _ => none

/-- The floating-point number with the given digits before and after its point. -/
def pointed (whole decimals : List Char) (exponent : Int) : Decimal.Floating :=
  let decimals := plainDigits decimals
  .nearest false ⟨Numeral.value (plainDigits whole ++ decimals), exponent - decimals.length⟩

/-- The floating-point number with a point that a text without a sign stands for. A number that begins with
the point may not have had a sign. -/
def pointed? (signed : Bool) (cs : List Char) : Option Decimal.Floating :=
  let isPart (c : Char) : Bool := c.isDigit || c == '_'
  let whole := cs.takeWhile isPart
  match cs.dropWhile isPart with
  | '.' :: rest =>
    let decimals := rest.takeWhile isPart
    let startsWell := if whole.isEmpty then !signed && isRun decimals else isRun whole
    if startsWell then (exponent? (rest.dropWhile isPart)).map (pointed whole decimals) else none
  | _ => none

/-- Adds up places of sixty, the lowest first, of which the first one counts `scale`. -/
def addPlaces (sum : Decimal.Floating) (scale : Nat) :
    List Decimal.Floating → Except ValueFault Decimal.Floating
  | [] => .ok sum
  | place :: places =>
    match Decimal.Floating.ofNat scale with
    | .infinite _ => .error .placeTooLarge
    | factor => addPlaces (sum.plus (place.times factor)) (scale * 60) places

/-- The floating-point number that places of sixty stand for, the last of them with a point. -/
def pointedSixties? (cs : List Char) : Option (Except ValueFault Decimal.Floating) :=
  match (Text.splitAt ':' cs).reverse with
  | last :: second :: more =>
    let whole := last.takeWhile (· != '.')
    let places := (second :: more).dropLast
    let first := (second :: more).getLast (by simp)
    match last.dropWhile (· != '.') with
    | '.' :: decimals =>
      if isRun first && places.all isPlace && isPlace whole && (decimals.all fun c => c.isDigit || c == '_') then
        let parts := pointed whole decimals 0 :: (places ++ [first]).map (pointed · [] 0)
        some (addPlaces (.ofNat 0) 1 parts)
      else none
    | _ => none
  | _ => none

/-- The floating-point number that a text without a sign stands for. -/
def floating? (signed : Bool) (cs : List Char) : Option (Except ValueFault Decimal.Floating) :=
  let s := String.ofList cs
  if [".inf", ".Inf", ".INF"].contains s then some (.ok (.infinite false))
  else if [".nan", ".NaN", ".NAN"].contains s && !signed then some (.ok .undefined)
  else
    match pointed? signed cs with
    | some x => some (.ok x)
    | none => pointedSixties? cs

def number? (cs : List Char) : Option (Except ValueFault Scalar) :=
  let (signed, negative, digits) :=
    match cs with
    | '-' :: rest => (true, true, rest)
    | '+' :: rest => (true, false, rest)
    | _ => (false, false, cs)
  match floating? signed digits with
  | some x => some (x.map fun x => .float (if negative then x.negate else x))
  | none => (natural? digits).map (·.map fun n => .int (if negative then -n else n))

/-! ### Days and points in time -/

/-- A run of digits in front whose length lies between the given ones, and what follows it. -/
def digits? (least most : Nat) (cs : List Char) : Option (Nat × List Char) :=
  let run := cs.takeWhile Char.isDigit
  if least ≤ run.length ∧ run.length ≤ most then some (Numeral.value run, cs.drop run.length) else none

/-- What follows an expected sign. -/
def after? (sign : Char) (cs : List Char) : Option (List Char) :=
  Text.dropStart? [sign] cs

def isBlank (c : Char) : Bool :=
  c == ' ' || c == '\t'

/-- What stands between a day and a time of day: one letter, or blanks. -/
def skipSeparator? : List Char → Option (List Char)
  | [] => none
  | c :: cs =>
    if c = 'T' ∨ c = 't' then some cs
    else if isBlank c then some (cs.dropWhile isBlank)
    else none

/-- Parts of a second in front, in millionths, and what follows them. Smaller parts are left out. -/
def millionths : List Char → Nat × List Char
  | '.' :: cs =>
    let run := cs.takeWhile Char.isDigit
    (Numeral.value ((run ++ List.replicate 6 '0').take 6), cs.drop run.length)
  | cs => (0, cs)

/-- The offset at the end of a point in time, in seconds, where there is one. -/
def zone? (cs : List Char) : Option (Option Int) :=
  match cs with
  | [] => some none
  | _ =>
    match cs.dropWhile isBlank with
    | ['Z'] => some (some 0)
    | sign :: cs =>
      if sign = '+' ∨ sign = '-' then do
        let (hours, cs) ← digits? 1 2 cs
        let (minutes, cs) ← if cs.isEmpty then some (0, []) else after? ':' cs >>= digits? 2 2
        let seconds : Int := (hours * 60 + minutes) * 60
        if cs.isEmpty then some (some (if sign = '-' then -seconds else seconds)) else none
      else none
    | [] => none

/-- The day or the point in time that a text stands for. A day on its own is written with all of its digits. -/
def timestamp? (cs : List Char) : Option (Except Calendar.Fault Scalar) := do
  let (year, rest) ← digits? 4 4 cs
  let (month, rest) ← after? '-' rest >>= digits? 1 2
  let (day, rest) ← after? '-' rest >>= digits? 1 2
  if rest.isEmpty then
    if cs.length = 10 then some ((Calendar.Date.make year month day).map .date) else none
  else
    let (hour, rest) ← skipSeparator? rest >>= digits? 1 2
    let (minute, rest) ← after? ':' rest >>= digits? 2 2
    let (second, rest) ← after? ':' rest >>= digits? 2 2
    let (micro, rest) := millionths rest
    let offset ← zone? rest
    some ((Calendar.Moment.make year month day hour minute second micro offset).map .moment)

/-! ### All of them -/

/-- What a plain scalar stands for. -/
inductive PlainValue
  | value (s : Scalar)
  /-- The sign `<<`, which merges other mappings into one. -/
  | merge
  /-- The sign `=`, which is a name but no value. -/
  | equalsSign
  deriving DecidableEq, Repr

def plainValue (cs : List Char) : Except ValueFault PlainValue :=
  let s := String.ofList cs
  if s = "<<" then .ok .merge
  else if s = "=" then .ok .equalsSign
  else
    match word? s with
    | some v => .ok (.value v)
    | none =>
      match number? cs with
      | some v => v.map .value
      | none =>
        match timestamp? cs with
        | some v => (v.mapError .calendar).map .value
        | none => .ok (.value (.text s))

example :
    (plainValue ("1:30".toList)).toOption = some (.value (.int 90)) ∧
      (plainValue ("0x_1F".toList)).toOption = some (.value (.int 31)) ∧
      (plainValue ("1_0:30.5".toList)).toOption = some (.value (.float (.nearest false ⟨6305, -1⟩))) ∧
      (plainValue ("2024-1-2".toList)).toOption = some (.value "2024-1-2") := by
  decide +kernel

end RuntimeRanges.Yaml
