import RuntimeRanges.Text.Cut

/-!
Paths of files, in normal form: repeated slashes and single points are left out, while `..` stays.
-/

namespace RuntimeRanges

/-- A path. A path from the root begins with one slash, or with two where exactly two are written. -/
structure FilePath where
  root : List Char
  names : List String
  deriving DecidableEq, Repr

namespace FilePath

/-- The slashes that the path keeps at its beginning. -/
def rootOf (cs : List Char) : List Char :=
  match (cs.takeWhile (· == '/')).length with
  | 0 => []
  | 2 => ['/', '/']
  | _ => ['/']

/-- The names between the slashes that count. -/
def namesOf (cs : List Char) : List String :=
  ((Text.splitAt '/' cs).filter fun name => !name.isEmpty && name != ['.']).map String.ofList

def ofString (s : String) : FilePath :=
  ⟨rootOf s.toList, namesOf s.toList⟩

def joinNames : List String → List Char
  | [] => []
  | [name] => name.toList
  | name :: next :: rest => name.toList ++ '/' :: joinNames (next :: rest)

/-- The text of a path; that of the current directory is a point. -/
def text (p : FilePath) : String :=
  if p.root.isEmpty && p.names.isEmpty then "." else String.ofList (p.root ++ joinNames p.names)

/-- The end of a name from its last point on, unless the point is its first or last character. -/
def suffixOf (name : List Char) : List Char :=
  let ending := (name.reverse.takeWhile (· != '.')).reverse
  if ending.isEmpty || name.length ≤ ending.length + 1 then [] else '.' :: ending

/-- The suffix of the last name, in lower case. -/
def suffix (p : FilePath) : String :=
  String.ofList ((suffixOf ((p.names.getLast?.getD "").toList)).map Char.toLower)

example : (ofString "./a//b/../c.json").text = "a/b/../c.json" ∧ (ofString "m.YAML").suffix = ".yaml" ∧
    (ofString ".yaml").suffix = "" ∧ (ofString "m.yaml.").suffix = "" := by decide +kernel

end FilePath

end RuntimeRanges
