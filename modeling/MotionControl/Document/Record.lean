import MotionControl.Document.Value

/-!
# Records in documents

How typed data is taken out of a document and shown as one.

- `Readable`: types that a value may stand for.
- `Record.required`, `Record.optional`: the fields of a record, one after another.
  A table gives them by name and a list by position.
- `Surplus`: whether a list may hold more items than a record has fields.  Other keys
  of a table are ignored, as long as their values are sound.
- `Showable`: types that are shown as a value.
-/

namespace MotionControl

namespace Document

/-- What becomes of the items of a list that a record has no fields for. -/
inductive Surplus where
  /-- They are not even looked at. -/
  | ignored
  | refused
  deriving DecidableEq, Repr

/-- Types that a value may stand for. -/
class Readable (β : Type) where
  read? : Surplus → Value → Option β

/-- Types that are shown as a value. -/
class Showable (β : Type) where
  shown : β → Value

export Readable (read?)
export Showable (shown)

/-! ## Single values -/

instance : Readable Bool where
  read?
    | _, .boolean b => some b
    | _, _ => none

instance : Readable String where
  read?
    | _, .text s => some s
    | _, _ => none

/-- An integer may stand for a real as long as it fits into 64 bits. -/
instance : Readable Float where
  read?
    | _, .real x => some x
    | _, .integer n =>
      if -0x8000000000000000 ≤ n ∧ n ≤ 0xffffffffffffffff then some (Float.ofInt n) else none
    | _, _ => none

/-- A real never stands for an integer. -/
instance : Readable UInt32 where
  read?
    | _, .integer n =>
      if 0 ≤ n ∧ n ≤ 0xffffffff then some (UInt32.ofNat n.toNat) else none
    | _, _ => none

instance {β : Type} [Readable β] : Readable (List β) where
  read?
    | surplus, .list items => items.mapM (read? surplus)
    | _, _ => none

instance : Showable Bool := ⟨.boolean⟩
instance : Showable String := ⟨.text⟩
instance : Showable Float := ⟨.real⟩
instance : Showable UInt32 := ⟨fun n => .integer n.toNat⟩
instance {β : Type} [Showable β] : Showable (List β) := ⟨fun xs => .list (xs.map shown)⟩

/-- A choice between names, given as text or as a table that maps the name to an
empty list or table. -/
def readName? {β : Type} (ofName? : String → Option β) (_ : Surplus) : Value → Option β
  | .text s => ofName? s
  | .table [(s, .table [])] => ofName? s
  | .table [(s, .list [])] => ofName? s
  | _ => none

/-! ## Records -/

/-- The fields of a record that have not been read yet. -/
inductive Fields where
  | byName (entries : List (String × Value))
  | byPosition (items : List Value)

namespace Fields

/-- A date is a record without any field that is looked for. -/
def ofValue? : Value → Option Fields
  | .table entries => some (.byName entries)
  | .list items => some (.byPosition items)
  | .instant _ => some (.byName [])
  | _ => none

/-- The next field, by its name or simply the next one, and the fields without it. -/
def next (name : String) : Fields → Option Value × Fields
  | .byName entries => (lookup name entries, .byName (entries.filter (·.1 ≠ name)))
  | .byPosition [] => (none, .byPosition [])
  | .byPosition (v :: rest) => (some v, .byPosition rest)

/-- Whether these fields may be left over in the end. -/
def mayRemain (surplus : Surplus) : Fields → Bool
  | .byName entries => entriesAreSound entries
  | .byPosition items => surplus = .ignored || items.isEmpty

end Fields

/-- A record that is read field after field. -/
abbrev Record := ReaderT Surplus (StateT Fields Option)

namespace Record

/-- A field that has to be there. -/
def required {β : Type} [Readable β] (name : String) : Record β := fun surplus fields =>
  match fields.next name with
  | (some v, rest) => (read? surplus v).map (·, rest)
  | (none, _) => none

/-- A field that may be left out. -/
def optional {β : Type} [Readable β] (name : String) (fallback : β) : Record β :=
  fun surplus fields =>
    match fields.next name with
    | (some v, rest) => (read? surplus v).map (·, rest)
    | (none, rest) => some (fallback, rest)

/-- Reads a value as a record. -/
def ofValue? {β : Type} (record : Record β) (surplus : Surplus) (v : Value) : Option β := do
  let fields ← Fields.ofValue? v
  let (result, rest) ← record surplus fields
  if rest.mayRemain surplus then some result else none

end Record

end Document

end MotionControl
