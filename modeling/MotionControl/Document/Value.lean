/-!
# Values of a configuration document

- `Value`: what a document can hold.
- `Value.isSound`: whether every numeral in a value stands for a number.
- `lookup`: the value under a key of a table.
-/

namespace MotionControl

namespace Document

/-- A value of a document.  A table keeps its keys in the order of the document,
each at most once. -/
inductive Value where
  | text (s : String)
  | integer (n : Int)
  | real (x : Float)
  /-- A numeral that stands for no number: it is out of range, has no digits or has
  other signs among them.  Only a reader that asks for its number minds. -/
  | idleNumeral (s : String)
  | boolean (b : Bool)
  /-- A date, a time or both, kept as it was written. -/
  | instant (s : String)
  | list (items : List Value)
  | table (entries : List (String × Value))
  deriving Inhabited

mutual

/-- Whether every numeral in a value stands for a number. -/
def Value.isSound : Value → Bool
  | .idleNumeral _ => false
  | .list items => itemsAreSound items
  | .table entries => entriesAreSound entries
  | _ => true

/-- The same for all items of a list. -/
def itemsAreSound : List Value → Bool
  | [] => true
  | v :: rest => v.isSound && itemsAreSound rest

/-- The same for all entries of a table. -/
def entriesAreSound : List (String × Value) → Bool
  | [] => true
  | (_, v) :: rest => v.isSound && entriesAreSound rest

end

/-- The entry under a key. -/
def lookup {β : Type} (key : String) (entries : List (String × β)) : Option β :=
  (entries.find? (·.1 = key)).map (·.2)

end Document

end MotionControl
