import RuntimeRanges.Log.Event

/-!
What keeps an event from being rendered as a line of JSON: an integer with too many digits, a field that is named by a
day or a point in time, and values that are nested too deep.
-/

namespace RuntimeRanges.Log

inductive RenderFault
  | numeral (e : Numeral.LimitError)
  | key (kind : String)
  | tooDeep
  deriving DecidableEq, Repr

def RenderFault.message : RenderFault → String
  | numeral e => e.message
  | key kind => "keys must be str, int, float, bool or None, not " ++ kind
  | tooDeep => "maximum recursion depth exceeded while encoding a JSON object"

/-- What keeps the name of a field from being rendered. -/
def keyFault? (key : Scalar) : Option RenderFault :=
  match key with
  | .date _ => some (.key "datetime.date")
  | .moment _ => some (.key "datetime.datetime")
  | _ => if key.isWritable then none else some (.numeral .writing)

/-- What keeps a scalar from being rendered. Days and points in time are turned into texts first, one step further
in. -/
def scalarFault? (room : Nat) (s : Scalar) : Option RenderFault :=
  match s with
  | .date _ | .moment _ => if room = 0 then some .tooDeep else none
  | _ => if s.isWritable then none else some (.numeral .writing)

mutual

/-- What keeps a document from being rendered where there is room for values in one another. -/
def renderFault? : Nat → Document → Option RenderFault
  | room, .scalar s => scalarFault? room s
  | 0, _ => some .tooDeep
  | room + 1, .list items => itemFault? room items
  | room + 1, .object fields => fieldFault? room fields

def itemFault? (room : Nat) : List Document → Option RenderFault
  | [] => none
  | d :: items => (renderFault? room d).or (itemFault? room items)

/-- The first fault among the names and the values of an object. -/
def fieldFault? (room : Nat) : List (Scalar × Document) → Option RenderFault
  | [] => none
  | (key, d) :: fields => (keyFault? key).or ((renderFault? room d).or (fieldFault? room fields))

end

def Event.renderFault? (room : Nat) (e : Event) : Option RenderFault :=
  Log.renderFault? room e.toDocument

end RuntimeRanges.Log
