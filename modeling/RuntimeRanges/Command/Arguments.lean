import RuntimeRanges.Document
import RuntimeRanges.Text.Cut
import RuntimeRanges.Text.Digit
import RuntimeRanges.Text.UpperCase

/-!
Arguments of commands: options with and without values. An option may be shortened as long as its beginning
belongs to no other one, and its value may follow a `=`; a `--` there leaves the option without a value. All
arguments are told apart first; then the options take effect one by one, and the last use of an option counts.
-/

namespace RuntimeRanges.Command

/-- An option of a command. -/
structure Flag where
  name : String
  takesValue : Bool := true
  isRequired : Bool := false
  /-- The values that the option may have, in upper case; without any it may have every value. -/
  choices : List String := []
  deriving DecidableEq, Repr

/-- What an option stands for: a flag of the command, or the request for help. -/
inductive Meaning
  | flag (f : Flag)
  | help
  deriving DecidableEq, Repr

def Meaning.name : Meaning → String
  | flag f => f.name
  | help => "-h/--help"

inductive Misuse
  | ambiguous (argument : String) (options : List String)
  | noValue (option : String)
  | superfluousValue (option : String) (value : String)
  | noChoice (option : String) (value : String) (choices : List String)
  | missing (options : List String)
  | unknown (arguments : List String)
  deriving DecidableEq, Repr

def Misuse.message : Misuse → String
  | ambiguous argument options =>
    "ambiguous option: " ++ argument ++ " could match " ++ Text.separated ", " options
  | noValue option => "argument " ++ option ++ ": expected one argument"
  | superfluousValue option value =>
    "argument " ++ option ++ ": ignored explicit argument " ++ Text.quoted value
  | noChoice option value choices =>
    "argument " ++ option ++ ": invalid choice: " ++ Text.quoted value ++ " (choose from " ++
      Text.separated ", " (choices.map Text.quoted) ++ ")"
  | missing options => "the following arguments are required: " ++ Text.separated ", " options
  | unknown arguments => "unrecognized arguments: " ++ Text.separated " " arguments

/-- How reading arguments ends early. -/
inductive Stop
  | help
  | misuse (m : Misuse)
  deriving DecidableEq, Repr

/-- What an argument is: a value, an option with the value attached to it, or an unknown option. What is
attached to the short option for help, with a `=` or without, is taken for more short options. -/
inductive Argument
  | value
  | option (m : Meaning) (attached : Option (List Char))
  | shortHelp (attached : List Char)
  | unknown
  deriving DecidableEq, Repr

def spellings (flags : List Flag) : List (String × Meaning) :=
  ("-h", .help) :: ("--help", .help) :: flags.map fun f => (f.name, .flag f)

/-- The text before the first `=`, and the text after it. -/
def cutValue (cs : List Char) : List Char × Option (List Char) :=
  match cs.dropWhile (· != '=') with
  | [] => (cs, none)
  | _ :: value => (cs.takeWhile (· != '='), some value)

/-- Whether an argument reads as a negative number, which is a value; a line end may follow it. -/
def isNegativeNumber (cs : List Char) : Bool :=
  let cs := if cs.getLast? = some '\n' then cs.dropLast else cs
  match cs with
  | '-' :: number =>
    match number.dropWhile Text.isDecimal with
    | [] => !number.isEmpty
    | '.' :: places => !places.isEmpty && places.all Text.isDecimal
    | _ => false
  | _ => false

def classifyOther (cs : List Char) : Argument :=
  if isNegativeNumber cs || cs.contains ' ' then .value else .unknown

def classifyBeginning (flags : List Flag) (cs : List Char) : Except Misuse Argument :=
  if cs.take 2 = ['-', '-'] then
    let (start, attached) := cutValue cs
    match (spellings flags).filter (start.isPrefixOf ·.1.toList) with
    | [] => .ok (classifyOther cs)
    | [(_, m)] => .ok (.option m attached)
    | several => .error (.ambiguous (String.ofList cs) (several.map Prod.fst))
  else if cs.take 2 = ['-', 'h'] then .ok (.shortHelp (cs.drop 2))
  else .ok (classifyOther cs)

def classify (flags : List Flag) (cs : List Char) : Except Misuse Argument :=
  match cs with
  | '-' :: _ :: _ =>
    match (spellings flags).lookup (String.ofList cs) with
    | some m => .ok (.option m none)
    | none =>
      match cutValue cs with
      | (_, none) => classifyBeginning flags cs
      | (start, some attached) =>
        if start = ['-', 'h'] then .ok (.shortHelp attached)
        else
          match (spellings flags).lookup (String.ofList start) with
          | some m => .ok (.option m (some attached))
          | none => classifyBeginning flags cs
  | _ => .ok .value

/-- The arguments, each with what it is. The first `--` and all after it are superfluous. -/
def classifyAll (flags : List Flag) : List String → Except Misuse (List (String × Argument))
  | [] => .ok []
  | argument :: rest =>
    if argument = "--" then .ok ((argument :: rest).map (·, .unknown))
    else do
      let a ← classify flags argument.toList
      let as ← classifyAll flags rest
      return (argument, a) :: as

/-- What an option is given: a value, or nothing at all. -/
inductive Given (α : Type)
  | value (a : α)
  | nothing
  deriving DecidableEq, Repr

def Given.getD {α : Type} (g : Given α) (other : α) : α :=
  match g with
  | value a => a
  | nothing => other

/-- What an option is given, as a value of another type. -/
def Given.map {α β : Type} (f : α → β) : Given α → Given β
  | value a => .value (f a)
  | nothing => .nothing

/-- A use of an option. -/
structure Use where
  name : String
  value : Given String
  deriving DecidableEq, Repr

def Flag.use (f : Flag) (value : String) : Except Misuse Use :=
  if f.choices.isEmpty then .ok ⟨f.name, .value value⟩
  else
    let value := String.ofList (Text.upper value.toList)
    if f.choices.contains value then .ok ⟨f.name, .value value⟩
    else .error (.noChoice f.name value f.choices)

/-- The use of a flag with a value attached to it. -/
def Flag.useAttached (f : Flag) (value : String) : Except Misuse Use :=
  if value = "--" then .ok ⟨f.name, .nothing⟩ else f.use value

/-- How the request for help ends when something is attached to the short option: the short options in it are
looked at one by one, and only that for help is known. -/
def stopShortHelp : List Char → Stop
  | ['h'] => .help
  | 'h' :: c :: rest => stopShortHelp (c :: rest)
  | rest => .misuse (.superfluousValue Meaning.help.name (String.ofList rest))

/-- Lets the options take effect: the uses of flags, and the arguments that are superfluous. -/
def apply : List (String × Argument) → Except Stop (List Use × List String)
  | [] => .ok ([], [])
  | (_, .shortHelp attached) :: _ => .error (stopShortHelp attached)
  | (_, .option .help none) :: _ => .error .help
  | (_, .option .help (some value)) :: _ =>
    .error (.misuse (.superfluousValue Meaning.help.name (String.ofList value)))
  | (_, .option (.flag f) attached) :: rest =>
    match f.takesValue, attached, rest with
    | true, some value, rest => add (f.useAttached (String.ofList value)) (apply rest)
    | true, none, (value, .value) :: rest => add (f.use value) (apply rest)
    | true, none, _ => .error (.misuse (.noValue f.name))
    | false, some value, _ => .error (.misuse (.superfluousValue f.name (String.ofList value)))
    | false, none, rest => add (.ok ⟨f.name, .nothing⟩) (apply rest)
  | (argument, _) :: rest => do
    let (uses, superfluous) ← apply rest
    return (uses, argument :: superfluous)
where
  /-- Puts a use in front of those that follow it. -/
  add (use : Except Misuse Use) (later : Except Stop (List Use × List String)) :
      Except Stop (List Use × List String) := do
    let use ← use.mapError .misuse
    let (uses, superfluous) ← later
    return (use :: uses, superfluous)

def readArguments (flags : List Flag) (arguments : List String) : Except Stop (List Use) := do
  let classified ← (classifyAll flags arguments).mapError .misuse
  let (uses, superfluous) ← apply classified
  let missing := flags.filter fun f => f.isRequired && !uses.any (·.name = f.name)
  if !missing.isEmpty then .error (.misuse (.missing (missing.map Flag.name)))
  else if !superfluous.isEmpty then .error (.misuse (.unknown superfluous))
  else .ok uses

/-- What counts for an option: what its last use gives. -/
def valueOf? (name : String) (uses : List Use) : Option (Given String) :=
  (uses.reverse.find? (·.name = name)).map Use.value

end RuntimeRanges.Command
