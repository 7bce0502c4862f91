import RuntimeRanges.Text.Printable

/-!
Quoted text, as it stands in messages: between single quotes, or between double quotes where the text
holds a single quote and no double one; the quote in use, backslashes and characters that do not print are
escaped. Code points that stand for no character can be quoted too.
-/

namespace RuntimeRanges.Text.Quoted

/-- The last `width` hexadecimal digits of a number, in lower case. -/
def hexDigits : Nat → Nat → List Char
  | 0, _ => []
  | width + 1, n => hexDigits width (n / 16) ++ [Nat.digitChar (n % 16)]

/-- One character between quotes of the given kind. -/
def escape (quote c : Char) : List Char :=
  if c = quote ∨ c = '\\' then ['\\', c]
  else if c = '\n' then ['\\', 'n']
  else if c = '\r' then ['\\', 'r']
  else if c = '\t' then ['\\', 't']
  else if isPrintable c then [c]
  else if c.toNat < 0x100 then '\\' :: 'x' :: hexDigits 2 c.toNat
  else if c.toNat < 0x10000 then '\\' :: 'u' :: hexDigits 4 c.toNat
  else '\\' :: 'U' :: hexDigits 8 c.toNat

def quoteFor (cs : List Char) : Char :=
  if cs.contains '\'' && !cs.contains '"' then '"' else '\''

def encode (cs : List Char) : List Char :=
  let quote := quoteFor cs
  quote :: cs.flatMap (escape quote) ++ [quote]

def escapeCode (quote : Char) (n : Nat) : List Char :=
  if Nat.isValidChar n then escape quote (Char.ofNat n) else '\\' :: 'u' :: hexDigits 4 n

def encodeCodes (codes : List Nat) : List Char :=
  let quote := if codes.contains '\''.toNat && !codes.contains '"'.toNat then '"' else '\''
  quote :: codes.flatMap (escapeCode quote) ++ [quote]

end Quoted

/-- The text between quotes, with everything escaped that does not print. -/
def quoted (s : String) : String :=
  String.ofList (Quoted.encode s.toList)

example : quoted "it's\n" = "\"it's\\n\"" ∧ quoted "a'\"\x7f" = "'a\\'\"\\x7f'" := by decide +kernel

end RuntimeRanges.Text
