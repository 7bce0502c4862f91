import RuntimeRanges.FileView

/-!
File trees as seen from the current directory. What lies outside it is unknown: only the directories above it
are there.
-/

namespace RuntimeRanges

/-- The files of a tree with their octets, and the directories that are listed on their own. A directory
above something listed need not be listed itself. -/
structure FileTree where
  files : List (List String × List UInt8)
  directories : List (List String)
  deriving Repr

namespace FileTree

/-- What stands at a place, named from the current directory. -/
def node? (t : FileTree) (names : List String) : Option FileNode :=
  match t.files.find? (·.1 = names) with
  | some (_, octets) => some (.file octets)
  | none =>
    if names.isEmpty || t.directories.any names.isPrefixOf || t.files.any (names.isPrefixOf ·.1) then
      some .directory
    else none

/-- The longest name that a file may have, in octets. -/
def maxName : Nat := 255

/-- Walks along names from the node at a place inside the tree; the place is in reverse. -/
def walkInside (t : FileTree) (place : List String) (node : FileNode) :
    List String → Except FileFault FileNode
  | [] => .ok node
  | name :: rest =>
    match node with
    | .file _ | .locked _ => .error .notDirectory
    | .directory =>
      if name = ".." then
        match place with
        | [] => walkOutside rest
        | _ :: above => walkInside t above .directory rest
      else if maxName < name.utf8ByteSize then .error .nameTooLong
      else
        match t.node? (name :: place).reverse with
        | none => .error .missing
        | some next => walkInside t (name :: place) next rest
where
  /-- Walks along names outside the tree, where there are only the directories above it. -/
  walkOutside : List String → Except FileFault FileNode
    | [] => .ok .directory
    | name :: rest =>
      if name = ".." then walkOutside rest
      else if maxName < name.utf8ByteSize then .error .nameTooLong
      else .error .missing

/-- The longest path that can be followed, in octets. -/
def maxPath : Nat := 4095

def lookup (t : FileTree) (path : FilePath) : Except FileFault FileNode :=
  if path.text.toList.contains '\x00' then .error .nulInName
  else if maxPath < path.text.utf8ByteSize then .error .nameTooLong
  else if path.root.isEmpty then walkInside t [] .directory path.names
  else walkInside.walkOutside path.names

def view (t : FileTree) : FileView :=
  ⟨t.lookup⟩

end FileTree

end RuntimeRanges
