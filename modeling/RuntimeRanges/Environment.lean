import RuntimeRanges.FileView
import RuntimeRanges.Host

/-!
The environment of a command.
-/

namespace RuntimeRanges

/-- What a command sees of the world: files, variables with their values, and what it takes from elsewhere. -/
structure Environment where
  files : FileView
  bindings : List (String × String)
  host : Host

def Environment.value? (env : Environment) (name : String) : Option String :=
  (env.bindings.find? (·.1 = name)).map Prod.snd

end RuntimeRanges
