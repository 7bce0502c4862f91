import RuntimeRanges.Host
import RuntimeRanges.Yaml.Node
import RuntimeRanges.Yaml.PlainValue

/-!
Reading YAML. The whole text is first read into nodes, and the document is then built from these: the collections
of one depth before those further in, and the parts of a collection in order. The first fault in that order is the
one that is told. A mapping takes in the pairs of the mappings that it merges, in front of its own; the name of a
field is a scalar, and a repeated one keeps its first place and its last value. This is a part of YAML only: what is
left out of it is told apart from what is malformed.
-/

namespace RuntimeRanges.Yaml

/-- Why a text cannot be read. -/
inductive ReadError
  | malformed
  | value (f : ValueFault)
  /-- An escape has a number that is no code point. -/
  | escape (code : Nat)
  | unsupported (sign : Char)
  deriving DecidableEq, Repr

/-- From this number on an escape does not even fit into a machine integer. -/
def machineLimit : Nat := 0x80000000

/-- The error as commands know it. Of a text that is malformed only the fact is told. -/
def ReadError.failure : ReadError → Library.Failure
  | malformed => ⟨.yaml, "YAMLError", ""⟩
  | value .placeTooLarge => ⟨.other, "OverflowError", ValueFault.placeTooLarge.message⟩
  | value f => ⟨.value, "ValueError", f.message⟩
  | escape code =>
    if code < machineLimit then ⟨.value, "ValueError", "chr() arg not in range(0x110000)"⟩
    else ⟨.other, "OverflowError", "Python int too large to convert to C int"⟩
  | unsupported sign => ⟨.other, "NotImplementedError", "YAML with " ++ Text.quoted (String.singleton sign)⟩

namespace Node

/-- Whether the node is the sign that merges other mappings into one. -/
def isMerge : Node → Bool
  | plain text => text == ['<', '<']
  | _ => false

def isCollection : Node → Bool
  | sequence _ => true
  | mapping _ => true
  | _ => false

def size : Node → Nat
  | sequence items => sizes items + 1
  | mapping pairs => pairSizes pairs + 1
  | _ => 1
where
  /-- The number of nodes in items. -/
  sizes : List Node → Nat
    | [] => 0
    | n :: ns => n.size + sizes ns
  /-- The number of nodes in pairs. -/
  pairSizes : List (Node × Node) → Nat
    | [] => 0
    | (k, v) :: pairs => k.size + v.size + pairSizes pairs

mutual

/-- The pairs of a mapping, those that it merges in front of its own. Where `several` holds, the pairs of a
sequence of mappings are asked for, and those of the last mapping come first. -/
def pairs (several : Bool) : Node → Except ReadError (List (Node × Node))
  | mapping ps => do
    let merged ← mergedPairs ps
    return merged ++ ps.filter (!·.1.isMerge)
  | sequence items =>
    if several then do
      let parts ← pairsOfItems items
      return parts.reverse.flatten
    else .error .malformed
  | _ => .error .malformed

def pairsOfItems : List Node → Except ReadError (List (List (Node × Node)))
  | [] => .ok []
  | n :: ns => do
    let ps ← pairs false n
    let rest ← pairsOfItems ns
    return ps :: rest

def mergedPairs : List (Node × Node) → Except ReadError (List (Node × Node))
  | [] => .ok []
  | (k, v) :: ps => do
    let here ← if k.isMerge then pairs true v else .ok []
    let rest ← mergedPairs ps
    return here ++ rest

end

/-- The value of a scalar that stands as a value. -/
def value : Node → Except ReadError Scalar
  | plain text =>
    match plainValue text with
    | .ok (.value s) => .ok s
    | .ok _ => .error .malformed
    | .error f => .error (.value f)
  | quoted codes => .ok (.ofCodes codes)
  | _ => .error .malformed

/-- The value of a scalar that names a field. -/
def key : Node → Except ReadError Scalar
  | plain ['='] => .ok "="
  | n => n.value

/-! ### The order of building -/

def collectionsOfItems : List Node → Except ReadError (List Node)
  | [] => .ok []
  | n :: ns => do
    let here ← if n.isCollection then .ok [n] else n.value.map fun _ => []
    let rest ← collectionsOfItems ns
    return here ++ rest

/-- The collections among the values of pairs, whose names and scalars all have values. -/
def collectionsOfPairs : List (Node × Node) → Except ReadError (List Node)
  | [] => .ok []
  | (k, v) :: ps => do
    let _ ← k.key
    let here ← collectionsOfItems [v]
    let rest ← collectionsOfPairs ps
    return here ++ rest

def collections : Node → Except ReadError (List Node)
  | sequence items => collectionsOfItems items
  | n => do
    let ps ← n.pairs false
    collectionsOfPairs ps

def collectionsInside : List Node → Except ReadError (List Node)
  | [] => .ok []
  | n :: ns => do
    let here ← n.collections
    let rest ← collectionsInside ns
    return here ++ rest

/-- Looks for a fault in collections, one depth after the other. -/
def checkFrom : Nat → List Node → Except ReadError Unit
  | 0, _ => .ok ()
  | fuel + 1, ns =>
    match ns with
    | [] => .ok ()
    | ns => do
      let inside ← collectionsInside ns
      checkFrom fuel inside

/-- Looks for a fault. No node is deeper than the number of nodes. -/
def check (n : Node) : Except ReadError Unit := do
  let outermost ← collectionsOfItems [n]
  checkFrom n.size outermost

/-! ### Building -/

mutual

def build : Node → Except ReadError Document
  | sequence items => (buildItems items).map .list
  | mapping ps => do
    let merged ← buildMerged ps
    let own ← buildOwn ps
    return .object (Document.setFields [] (merged ++ own))
  | n => n.value.map .scalar

def buildItems : List Node → Except ReadError (List Document)
  | [] => .ok []
  | n :: ns => do
    let d ← build n
    let ds ← buildItems ns
    return d :: ds

def buildOwn : List (Node × Node) → Except ReadError (List (Scalar × Document))
  | [] => .ok []
  | (k, v) :: ps =>
    if k.isMerge then buildOwn ps
    else do
      let s ← k.key
      let d ← build v
      let fields ← buildOwn ps
      return (s, d) :: fields

/-- The fields that the values of merge signs give. -/
def buildMerged : List (Node × Node) → Except ReadError (List (Scalar × Document))
  | [] => .ok []
  | (k, v) :: ps => do
    let here ← if k.isMerge then buildSource v else .ok []
    let fields ← buildMerged ps
    return here ++ fields

/-- The fields of a mapping, or of a sequence of mappings with those of the last one first. -/
def buildSource : Node → Except ReadError (List (Scalar × Document))
  | sequence items => buildSources items
  | mapping ps => do
    let merged ← buildMerged ps
    let own ← buildOwn ps
    return merged ++ own
  | _ => .error .malformed

def buildSources : List Node → Except ReadError (List (Scalar × Document))
  | [] => .ok []
  | n :: ns => do
    let here ← buildSource n
    let later ← buildSources ns
    return later ++ here

end

end Node

def read (cs : List Char) : Except ReadError Document :=
  match tokens? cs with
  | none => .error .malformed
  | some tokens =>
    match Node.ofTokens tokens with
    | .error (.unreadable code :: _) => .error (.escape code)
    | .error (.unsupported sign :: _) => .error (.unsupported sign)
    | .error _ => .error .malformed
    | .ok n => do
      n.check
      n.build

end RuntimeRanges.Yaml
