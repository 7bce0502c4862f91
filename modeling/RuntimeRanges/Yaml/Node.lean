import RuntimeRanges.Yaml.Token

/-!
Nodes of YAML: block and flow collections of plain and quoted scalars, as they are written. What plain scalars
stand for, and whether collections can be built from their parts, is not looked at. A missing value is the
empty plain scalar.
-/

namespace RuntimeRanges.Yaml

/-- A part of a document. -/
inductive Node
  | plain (text : List Char)
  | quoted (codes : List Nat)
  | sequence (items : List Node)
  | mapping (pairs : List (Node × Node))
  deriving Repr

namespace Node

def missing : Node := plain []

/-- A reader of a part of the tokens; it fails with the tokens that it does not expect. -/
abbrev Step (α : Type) := List Token → Except (List Token) (α × List Token)

/-- Which tokens end the place of a missing value. -/
def endsValue (ends : List Token) : List Token → Bool
  | [] => true
  | t :: _ => ends.contains t || t == .documentStart || t == .documentEnd

mutual

/-- A node; `block` admits block collections, and `loose` a block sequence that is not indented. -/
def node (block loose : Bool) : Nat → Step Node
  | 0, tokens => .error tokens
  | fuel + 1, tokens =>
    match tokens with
    | .plain text :: rest => .ok (.plain text, rest)
    | .quoted codes :: rest => .ok (.quoted codes, rest)
    | .flowSequenceStart :: rest => do
      let (items, rest) ← flowItems true fuel rest
      return (.sequence items, rest)
    | .flowMappingStart :: rest => do
      let (pairs, rest) ← flowPairs true fuel rest
      return (.mapping pairs, rest)
    | .sequenceStart :: rest =>
      if block then do
        let (items, rest) ← blockItems fuel rest
        return (.sequence items, rest)
      else .error tokens
    | .mappingStart :: rest =>
      if block then do
        let (pairs, rest) ← blockPairs fuel rest
        return (.mapping pairs, rest)
      else .error tokens
    | .entry :: _ =>
      if loose then do
        let (items, rest) ← looseItems fuel tokens
        return (.sequence items, rest)
      else .error tokens
    | _ => .error tokens

/-- A node, or a missing value where one of the given tokens follows. -/
def nodeOrMissing (block loose : Bool) (ends : List Token) : Nat → Step Node
  | 0, tokens => .error tokens
  | fuel + 1, tokens => if endsValue ends tokens then .ok (missing, tokens) else node block loose fuel tokens

def blockItems : Nat → Step (List Node)
  | 0, tokens => .error tokens
  | fuel + 1, .entry :: rest => do
    let (n, rest) ← nodeOrMissing true false [.entry, .blockEnd] fuel rest
    let (ns, rest) ← blockItems fuel rest
    return (n :: ns, rest)
  | _ + 1, .blockEnd :: rest => .ok ([], rest)
  | _ + 1, tokens => .error tokens

/-- The items of a block sequence that stands as deep as the mapping around it. -/
def looseItems : Nat → Step (List Node)
  | 0, tokens => .error tokens
  | fuel + 1, .entry :: rest => do
    let (n, rest) ← nodeOrMissing true false [.entry, .key, .value, .blockEnd] fuel rest
    let (ns, rest) ← looseItems fuel rest
    return (n :: ns, rest)
  | _ + 1, tokens => .ok ([], tokens)

def blockPairs : Nat → Step (List (Node × Node))
  | 0, tokens => .error tokens
  | fuel + 1, .key :: rest => do
    let (k, rest) ← nodeOrMissing true true [.key, .value, .blockEnd] fuel rest
    let (v, rest) ←
      match rest with
      | .value :: rest => nodeOrMissing true true [.key, .value, .blockEnd] fuel rest
      | _ => .ok (missing, rest)
    let (pairs, rest) ← blockPairs fuel rest
    return ((k, v) :: pairs, rest)
  | _ + 1, .blockEnd :: rest => .ok ([], rest)
  | _ + 1, tokens => .error tokens

/-- The items of a flow sequence; one with a key is a mapping of its own. -/
def flowItems (first : Bool) : Nat → Step (List Node)
  | 0, tokens => .error tokens
  | _ + 1, .flowSequenceEnd :: rest => .ok ([], rest)
  | fuel + 1, tokens => do
    let tokens ←
      if first then .ok tokens
      else
        match tokens with
        | .flowEntry :: rest => .ok rest
        | _ => .error tokens
    match tokens with
    | .flowSequenceEnd :: rest => return ([], rest)
    | .key :: rest => do
      let (k, rest) ← nodeOrMissing false false [.value, .flowEntry, .flowSequenceEnd] fuel rest
      let (v, rest) ←
        match rest with
        | .value :: rest => nodeOrMissing false false [.flowEntry, .flowSequenceEnd] fuel rest
        | _ => .ok (missing, rest)
      let (ns, rest) ← flowItems false fuel rest
      return (.mapping [(k, v)] :: ns, rest)
    | tokens => do
      let (n, rest) ← node false false fuel tokens
      let (ns, rest) ← flowItems false fuel rest
      return (n :: ns, rest)

/-- The pairs of a flow mapping; a name may stand without a value. -/
def flowPairs (first : Bool) : Nat → Step (List (Node × Node))
  | 0, tokens => .error tokens
  | _ + 1, .flowMappingEnd :: rest => .ok ([], rest)
  | fuel + 1, tokens => do
    let tokens ←
      if first then .ok tokens
      else
        match tokens with
        | .flowEntry :: rest => .ok rest
        | _ => .error tokens
    match tokens with
    | .flowMappingEnd :: rest => return ([], rest)
    | .key :: rest => do
      let (k, rest) ← nodeOrMissing false false [.value, .flowEntry, .flowMappingEnd] fuel rest
      let (v, rest) ←
        match rest with
        | .value :: rest => nodeOrMissing false false [.flowEntry, .flowMappingEnd] fuel rest
        | _ => .ok (missing, rest)
      let (pairs, rest) ← flowPairs false fuel rest
      return ((k, v) :: pairs, rest)
    | tokens => do
      let (k, rest) ← node false false fuel tokens
      let (pairs, rest) ← flowPairs false fuel rest
      return ((k, missing) :: pairs, rest)

end

/-- The node of a single document, which may begin and end with a mark. A failure names the tokens that are not
expected. -/
def ofTokens (tokens : List Token) : Except (List Token) Node :=
  let fuel := 4 * tokens.length + 4
  match tokens with
  | [] => .ok missing
  | first :: rest => do
    let (n, rest) ←
      if first = .documentStart then nodeOrMissing true false [] fuel rest
      else node true false fuel tokens
    match rest.dropWhile (· == .documentEnd) with
    | [] => return n
    | rest => .error rest

end Node

end RuntimeRanges.Yaml
