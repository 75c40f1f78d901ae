import MotionControl.Document.Toml.Draft
import MotionControl.Document.Toml.Scalar
import MotionControl.Document.Toml.Text

/-!
# Reading TOML documents

Version 1.1 of the format: bracketed values may span lines, and inline tables may
end in a comma.

- `dottedKey`: a key with its path, at most `nestingLimit` parts.
- `readValue`: a value, brackets nested at most `nestingLimit` deep.
- `Toml.read?`: a whole document as a table.
-/

namespace MotionControl

namespace Document.Toml

/-- How deep brackets may be nested, and of how many parts a key may consist. -/
def nestingLimit : Nat := 80

/-! ## Keys -/

/-- Characters of a key without quotes. -/
def isKeyChar (c : Char) : Bool := c.isAlphanum || c = '-' || c = '_'

/-- One part of a key. -/
def keyPart : Reader String
  | '"' :: rest => basicText rest
  | '\x27' :: rest => literalText rest
  | cs =>
    let name := cs.takeWhile isKeyChar
    if name.isEmpty then none else some (String.ofList name, cs.drop name.length)

/-- The parts after the first one, each behind a dot. -/
def keyRest : Nat → Reader (List String)
  | 0, cs => some ([], cs)
  | fuel + 1, cs =>
    match skipBlank cs with
    | '.' :: rest => do
      let (part, rest) ← keyPart (skipBlank rest)
      let (parts, rest) ← keyRest fuel rest
      pure (part :: parts, rest)
    | rest => some ([], rest)

/-- A key: the path to its table and its own name.  Blanks may surround it. -/
def dottedKey (cs : List Char) : Option ((List String × String) × List Char) := do
  let (first, rest) ← keyPart (skipBlank cs)
  let (parts, rest) ← keyRest rest.length rest
  let all := first :: parts
  if nestingLimit < all.length then none
  else some ((all.dropLast, all.getLast?.getD first), rest)

/-! ## Values -/

/-- The items of a list after its opening bracket, a comma after each but perhaps
the last. -/
def listItems (item : Reader Value) : Nat → List Value → Reader Value
  | 0, _, _ => none
  | fuel + 1, done, cs =>
    match skipTrivia cs with
    | ']' :: rest => some (.list done.reverse, rest)
    | cs => do
      let (v, rest) ← item cs
      match skipTrivia rest with
      | ',' :: rest => listItems item fuel (v :: done) rest
      | ']' :: rest => some (.list (v :: done).reverse, rest)
      | _ => none

/-- One `key = value` pair.  `skip` leaves out what may stand around the equals sign. -/
def pair (skip : List Char → List Char) (item : Reader Value) (entries : Entries)
    (cs : List Char) : Option (Entries × List Char) := do
  let ((path, key), rest) ← dottedKey cs
  let '=' :: rest := skip rest | none
  let (v, rest) ← item (skip rest)
  let entries ← insertKey path key v entries
  pure (entries, rest)

/-- The pairs of an inline table after its opening bracket, a comma after each but
perhaps the last.  Line ends and comments may stand anywhere but inside a key. -/
def inlinePairs (item : Reader Value) : Nat → Entries → Reader Value
  | 0, _, _ => none
  | fuel + 1, entries, cs =>
    match skipTrivia cs with
    | '}' :: rest => some (.table (finishEntries entries), rest)
    | cs => do
      let (entries, rest) ← pair skipTrivia item entries cs
      match skipTrivia rest with
      | ',' :: rest => inlinePairs item fuel entries rest
      | '}' :: rest => some (.table (finishEntries entries), rest)
      | _ => none

/-- A value in front, in which brackets may be nested `depth` deep. -/
def readValue : Nat → Reader Value
  | depth, cs =>
    match quotedText? cs with
    | some outcome => outcome.map fun (s, rest) => (.text s, rest)
    | none =>
      match depth, cs with
      | depth + 1, '[' :: rest => listItems (readValue depth) (rest.length + 1) [] rest
      | depth + 1, '{' :: rest => inlinePairs (readValue depth) (rest.length + 1) [] rest
      | _, cs => bareValue cs

/-! ## Documents -/

/-- Where the lines that are being read belong. -/
inductive Heading where
  | top
  | table (path : List String) (key : String)
  | repeated (path : List String) (key : String)

/-- A document that has been read up to some line. -/
structure Progress where
  root : Entries
  heading : Heading
  current : Entries

namespace Progress

/-- Puts the current table where its heading says. -/
def close (p : Progress) : Option Entries :=
  match p.heading with
  | .top => some p.current
  | .table path key => closeTable path key p.current p.root
  | .repeated path key => closeRepeated path key p.current p.root

/-- A new heading: the current table is closed and another one opened. -/
def enter (p : Progress) (heading : Heading) : Option Progress := do
  let root ← p.close
  match heading with
  | .table path key => pure ⟨root, heading, ← openTable? path key root⟩
  | _ => pure ⟨root, heading, []⟩

end Progress

/-- A header line after its first bracket. -/
def headerLine (cs : List Char) : Option (Heading × List Char) :=
  match cs with
  | '[' :: rest => do
    let ((path, key), rest) ← dottedKey rest
    let ']' :: ']' :: rest := rest | none
    pure (.repeated path key, rest)
  | _ => do
    let ((path, key), rest) ← dottedKey cs
    let ']' :: rest := rest | none
    pure (.table path key, rest)

/-- One line that is not blank. -/
def expression (p : Progress) (cs : List Char) : Option (Progress × List Char) :=
  match cs with
  | '[' :: rest => do
    let (heading, rest) ← headerLine rest
    pure (← p.enter heading, rest)
  | _ => do
    let (current, rest) ← pair skipBlank (readValue nestingLimit) p.current cs
    pure ({ p with current }, rest)

/-- The lines of a document. -/
def lines : Nat → Progress → List Char → Option Progress
  | 0, _, _ => none
  | fuel + 1, p, cs =>
    match skipTrivia cs with
    | [] => some p
    | '#' :: rest => (lineEnd ('#' :: rest)).bind fun _ => some p
    | cs => do
      let (p, rest) ← expression p cs
      lines fuel p (← lineEnd rest)

/-- A byte order mark in front of a document is not part of it. -/
def skipMark : List Char → List Char
  | '\ufeff' :: rest => rest
  | cs => cs

/-- Reads a whole document; `none` if it is not well formed. -/
def read? (document : String) : Option Value := do
  let cs := skipMark document.toList
  let p ← lines (cs.length + 1) ⟨[], .top, []⟩ cs
  pure (.table (finishEntries (← p.close)))

end Document.Toml

end MotionControl
