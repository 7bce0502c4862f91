import RuntimeRanges.Command.Resolve
import RuntimeRanges.Command.Validate
import RuntimeRanges.Document.OneLine
import RuntimeRanges.Host.Bundled

/-!
The program: `validate` and `resolve` as its first argument choose the command, which takes the other ones.
Only this module reads files and prints.
-/

namespace RuntimeRanges.Main

open Log (Traced)

def lookUp (path : FilePath) : IO (Except FileFault FileNode) := do
  if path.text.toList.contains '\x00' then return .error .nulInName
  try
    let octets ← IO.FS.readBinFile path.text
    return .ok (.file octets.toList)
  catch
    | .noFileOrDirectory .. => return .error .missing
    | .inappropriateType none .. => return .ok .directory
    | .inappropriateType (some _) .. => return .error .notDirectory
    | .permissionDenied .. => return .ok (.locked .denied)
    | .invalidArgument .. => return .error .nameTooLong
    | e => return .error (.other 5 (toString e))

def look (paths : List FilePath) : IO FileView := do
  let seen ← paths.mapM fun path => return (path, ← lookUp path)
  return ⟨fun path => (seen.lookup path).getD (.error .missing)⟩

def readBindings : IO (List (String × String)) := do
  let found ← [Settings.fileVariable, Log.levelVariable].mapM fun name =>
    return (← IO.getEnv name).map (name, ·)
  return found.reduceOption

/-- What a command sees that looks at the given paths and at its settings. -/
def environment (config : Option (Command.Given String)) (paths : List (Command.Given FilePath)) :
    IO Environment := do
  let given ← readBindings
  let (settings, _) := Settings.choosePath ⟨⟨fun _ => .error .missing⟩, given, .bundled⟩ (config.map (·.getD ""))
  let paths := paths.filterMap fun
    | .value path => some path
    | .nothing => none
  return ⟨← look (settings :: paths), given, .bundled⟩

/-- Prints the outcome of a command, and its events from a level on. -/
def finish (level : Nat) (x : Traced Command.Escape Command.Output) : IO UInt32 := do
  for e in Log.shown level x.events do
    IO.eprintln e.toDocument.toJsonLine
  match x.outcome with
  | .error e => throw (IO.userError e.message)
  | .ok o => do
    IO.eprint o.stderr
    IO.print o.stdout
    return UInt32.ofNat o.exitCode

def usage (command : String) (flags : List Command.Flag) : String :=
  "usage: runtime-ranges " ++ command ++ String.join (flags.map fun f =>
    let text := f.name ++ if f.takesValue then " VALUE" else ""
    if f.isRequired then " " ++ text else " [" ++ text ++ "]") ++ "\n"

/-- Ends a command whose arguments do not let it start. -/
def stop (command : String) (flags : List Command.Flag) : Command.Stop → IO UInt32
  | .help => do
    IO.print (usage command flags)
    return 0
  | .misuse m => do
    IO.eprint (usage command flags)
    IO.eprintln ("runtime-ranges " ++ command ++ ": error: " ++ m.message)
    return 2

def validate (arguments : List String) : IO UInt32 :=
  match Command.Validate.Options.read arguments with
  | .error s => stop "validate" Command.Validate.flags s
  | .ok o => do
    let env ← environment o.config (o.input :: o.schema.toList)
    finish (o.levelFrom (Log.levelOfVariable (env.value? Log.levelVariable))) (Command.Validate.run env o)

def resolve (arguments : List String) : IO UInt32 :=
  match Command.Resolve.Options.read arguments with
  | .error s => stop "resolve" Command.Resolve.flags s
  | .ok o => do
    let env ← environment o.config [o.input]
    finish (Log.levelOfVariable (env.value? Log.levelVariable)) (Command.Resolve.run env o)

end RuntimeRanges.Main

def main : List String → IO UInt32
  | "validate" :: arguments => RuntimeRanges.Main.validate arguments
  | "resolve" :: arguments => RuntimeRanges.Main.resolve arguments
  | _ => do
    IO.eprintln "usage: runtime-ranges validate|resolve ..."
    return 2
