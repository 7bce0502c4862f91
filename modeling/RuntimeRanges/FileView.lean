import RuntimeRanges.FilePath
import RuntimeRanges.Text.Quoted
import RuntimeRanges.Text.Utf8

/-!
Files as a command sees them: what stands at each path, and the reading of files as text.
-/

namespace RuntimeRanges

/-- Why a file cannot be looked up or opened. -/
inductive FileFault
  | missing
  | denied
  | notDirectory
  | isDirectory
  | nameTooLong
  /-- Links lead from one to another without end. -/
  | linkLoop
  | nulInName
  /-- Any other failure, with the number and the reason that the system gives. -/
  | other (number : Nat) (reason : String)
  deriving DecidableEq, Repr

def FileFault.message (f : FileFault) (path : FilePath) : String :=
  let shown (number : Nat) (reason : String) :=
    "[Errno " ++ toString number ++ "] " ++ reason ++ ": " ++ Text.quoted path.text
  match f with
  | missing => shown 2 "No such file or directory"
  | denied => shown 13 "Permission denied"
  | notDirectory => shown 20 "Not a directory"
  | isDirectory => shown 21 "Is a directory"
  | nameTooLong => shown 36 "File name too long"
  | linkLoop => shown 40 "Too many levels of symbolic links"
  | nulInName => "embedded null byte"
  | other number reason => shown number reason

/-- What stands at a path. -/
inductive FileNode
  | directory
  | file (octets : List UInt8)
  /-- Something that is there and cannot be read. -/
  | locked (f : FileFault)
  deriving Repr

/-- A view of files: what stands at each path, or why that cannot be told. -/
structure FileView where
  lookup : FilePath → Except FileFault FileNode

namespace FileView

/-- Whether something stands at a path. Nothing does where a name on the way is missing or no directory, where links
lead nowhere, and where the name cannot be one; other faults leave the question open. -/
def exists? (files : FileView) (path : FilePath) : Except FileFault Bool :=
  match files.lookup path with
  | .ok _ => .ok true
  | .error .missing | .error .notDirectory | .error .linkLoop | .error .nulInName => .ok false
  | .error f => .error f

def read (files : FileView) (path : FilePath) : Except FileFault (List UInt8) :=
  match files.lookup path with
  | .ok (.file octets) => .ok octets
  | .ok .directory => .error .isDirectory
  | .ok (.locked f) => .error f
  | .error f => .error f

/-- Why a file cannot be read as text. -/
inductive TextFault
  | file (f : FileFault) (path : FilePath)
  | encoding (f : Text.Utf8.Fault)
  deriving DecidableEq, Repr

/-- The characters of a text file, its line ends unified. -/
def readText (files : FileView) (path : FilePath) : Except TextFault (List Char) :=
  match files.read path with
  | .error f => .error (.file f path)
  | .ok octets =>
    match Text.Utf8.decode octets with
    | .error f => .error (.encoding f)
    | .ok cs => .ok (Text.unifyLineEnds cs)

end FileView

end RuntimeRanges
