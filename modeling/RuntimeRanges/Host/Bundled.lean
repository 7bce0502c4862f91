import RuntimeRanges.Yaml.Reader

/-!
The libraries that come with the commands. They do a part of what others do: YAML without anchors, aliases, tags, block
scalars and directives, and the schemas that admit every document or none. The rest is refused as not supported.
-/

namespace RuntimeRanges.Host

/-- What the trivial schemas find wrong with a document. -/
def checkTrivial (schema d : Document) : Except Library.Failure (List Library.Finding) :=
  match schema with
  | .bool true | .object [] => .ok []
  | .bool false =>
    if d.isWritable then .ok [⟨[], .text ("False schema does not allow " ++ d.literal)⟩]
    else .error ⟨.value, "ValueError", Numeral.LimitError.writing.message⟩
  | _ => .error ⟨.other, "NotImplementedError", "a schema of one's own"⟩

def bundled : Host where
  room _ := 900
  quoteRoom := 900
  readYaml cs := (Yaml.read cs).mapError Yaml.ReadError.failure
  checkSchema := checkTrivial

end RuntimeRanges.Host
