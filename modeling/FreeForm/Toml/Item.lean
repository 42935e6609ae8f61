import FreeForm.Decimal.Double
import FreeForm.Text.Basic

namespace FreeForm

namespace Toml

/-- A stretch of a document. Its ends are given by the number of bytes from them to the end of the
document. -/
structure Extent where
  start : Nat
  stop : Nat
  deriving DecidableEq, Repr

structure Key where
  name : Text
  extent : Extent
  deriving DecidableEq, Repr

inductive Form where
  | implicit
  | dotted
  | header
  | inline
  deriving DecidableEq, Repr

inductive Item where
  | string (t : Text)
  | integer (n : Int)
  | float (x : Double)
  | boolean (b : Bool)
  | datetime
  | array (items : List Item)
  | table (form : Form) (entries : List (Key × Option Extent × Item))
  | tables (rows : List (List (Key × Option Extent × Item)))

/-- A key with its item, and where the item stands if it stands in one place. -/
abbrev Entry := Key × Option Extent × Item

abbrev Entries := List Entry

namespace Entries

def alter (name : Text) (missing : Option Entry) (found : Entry → Option Entry) :
    Entries → Option Entries
  | [] => missing.map ([·])
  | e :: es =>
    if e.1.name = name then (found e).map (· :: es) else (alter name missing found es).map (e :: ·)

def add (e : Entry) (es : Entries) : Option Entries :=
  alter e.1.name (some e) (fun _ ↦ none) es

/-- A table on the way of a path may be entered: by a dotted key if dotted keys or headers further down
have made it, by a header if it is not inline. -/
def mayEnter (dotted : Bool) : Form → Bool
  | .implicit | .dotted => true
  | .header => !dotted
  | .inline => false

/-- Changes the table that a path leads to by `f`, which also gets the form of that table. Tables
that are missing on the way are made; of several tables under one name, the last is meant. `stop?` is
the new end of the entry the path leads to. -/
def within (dotted : Bool) (stop? : Option Nat) (f : Form → Entries → Option Entries) :
    List Key → Form → Entries → Option Entries
  | [], form, es => f form es
  | k :: path, _, es =>
    let extend (extent : Option Extent) : Option Extent :=
      match path, stop? with
      | [], some stop => extent.map fun x ↦ { x with stop := stop }
      | _, _ => extent
    let made := if dotted then Form.dotted else Form.implicit
    alter k.name ((within dotted stop? f path made []).map fun es ↦ (k, none, .table made es))
      (fun
        | (key, extent, .table form es) =>
          if mayEnter dotted form then
            (within dotted stop? f path form es).map fun es ↦ (key, extend extent, .table form es)
          else none
        | (key, extent, .tables rows) =>
          (within dotted stop? f path .header (rows.getLast?.getD [])).map fun es ↦
            (key, extend extent, .tables (rows.dropLast ++ [es]))
        | _ => none)
      es

/-- Sets a dotted key. The table it leads to must have been made by dotted keys, unless it is the
table at hand. -/
def set (path : List Key) (e : Entry) (form : Form) (es : Entries) : Option Entries :=
  within true none
    (fun form es ↦ if (form == .dotted) == path.isEmpty then none else es.add e) path form es

/-- Opens the table of a header. A table that was only made on the way is moved behind the others. -/
def openTable (k : Key) (extent : Extent) (es : Entries) : Option Entries :=
  match es.find? fun e ↦ e.1.name = k.name with
  | none => some (es ++ [(k, some extent, .table .header [])])
  | some (_, _, .table .implicit inner) =>
    some ((es.eraseP fun e ↦ e.1.name = k.name) ++ [(k, some extent, .table .header inner)])
  | some _ => none

def openRow (k : Key) (extent : Extent) (es : Entries) : Option Entries :=
  alter k.name (some (k, some extent, .tables [[]]))
    (fun
      | (key, before, .tables rows) =>
        some (key, before.map fun x ↦ { x with stop := extent.stop }, .tables (rows ++ [[]]))
      | _ => none)
    es

end Entries

end Toml

end FreeForm
