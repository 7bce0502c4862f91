import RuntimeRanges.Document

/-!
Writing documents as JSON, each item on a line of its own and each level two blanks further in. Everything
outside the printable ASCII characters is escaped.
-/

namespace RuntimeRanges.Document

def unitEscape (n : Nat) : List Char :=
  '\\' :: 'u' :: Text.Quoted.hexDigits 4 n

def jsonChar (c : Char) : List Char :=
  let n := c.toNat
  if c = '"' ∨ c = '\\' then ['\\', c]
  else if c = '\n' then ['\\', 'n']
  else if c = '\r' then ['\\', 'r']
  else if c = '\t' then ['\\', 't']
  else if c = '\x08' then ['\\', 'b']
  else if c = '\x0c' then ['\\', 'f']
  else if 0x20 ≤ n ∧ n ≤ 0x7E then [c]
  else if n < 0x10000 then unitEscape n
  else unitEscape (0xD800 + (n - 0x10000) / 0x400) ++ unitEscape (0xDC00 + (n - 0x10000) % 0x400)

def jsonCode (n : Nat) : List Char :=
  if Nat.isValidChar n then jsonChar (Char.ofNat n) else unitEscape n

def jsonString (s : String) : String :=
  String.ofList ('"' :: s.toList.flatMap jsonChar ++ ['"'])

def jsonFloat : Decimal.Floating → String
  | .undefined => "NaN"
  | .infinite negative => if negative then "-Infinity" else "Infinity"
  | x => x.text

/-- The JSON text of a scalar. Days and points in time are written as texts. -/
def jsonScalar : Scalar → String
  | .null => "null"
  | .bool b => if b then "true" else "false"
  | .int n => Numeral.text n
  | .float x => jsonFloat x
  | .text s => jsonString s
  | .unpaired codes => String.ofList ('"' :: codes.flatMap jsonCode ++ ['"'])
  | .date d => jsonString d.text
  | .moment m => jsonString m.text

def jsonKey : Scalar → String
  | .null => jsonString "null"
  | .bool b => jsonString (if b then "true" else "false")
  | .int n => jsonString (Numeral.text n)
  | .float x => jsonString (jsonFloat x)
  | s => jsonScalar s

def newLine (level : Nat) : String :=
  String.ofList ('\n' :: List.replicate (2 * level) ' ')

/-- Items between brackets, one on each line. -/
def bracketed (opening closing : String) (level : Nat) (parts : List String) : String :=
  if parts.isEmpty then opening ++ closing
  else
    opening ++ newLine (level + 1) ++ Text.separated ("," ++ newLine (level + 1)) parts ++ newLine level ++
      closing

mutual

/-- The JSON text of a document that stands at a level. -/
def indented (level : Nat) : Document → String
  | scalar s => jsonScalar s
  | list items => bracketed "[" "]" level (indentedItems (level + 1) items)
  | object fields => bracketed "\x7b" "\x7d" level (indentedFields (level + 1) fields)

def indentedItems (level : Nat) : List Document → List String
  | [] => []
  | d :: items => indented level d :: indentedItems level items

def indentedFields (level : Nat) : List (Scalar × Document) → List String
  | [] => []
  | (k, d) :: fields => (jsonKey k ++ ": " ++ indented level d) :: indentedFields level fields

end

def toJson (d : Document) : String :=
  indented 0 d

end RuntimeRanges.Document
