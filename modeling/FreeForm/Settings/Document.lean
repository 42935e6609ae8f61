import FreeForm.Decimal.Shortest
import FreeForm.Settings
import FreeForm.Text.Quoted
import FreeForm.Toml.Diagnostic
import FreeForm.Toml.Document

namespace FreeForm

namespace Settings

open Toml

inductive Field where
  | tabWidth
  | maxContinuationLines
  | strict
  deriving DecidableEq, Repr

namespace Field

def all : List Field :=
  [tabWidth, maxContinuationLines, strict]

def name : Field → Text
  | tabWidth => "tab_width".toList
  | maxContinuationLines => "max_continuation_lines".toList
  | strict => "strict".toList

def ofName? (t : Text) : Option Field :=
  all.find? fun f ↦ f.name = t

theorem ofName?_name (f : Field) : ofName? f.name = some f := by
  cases f <;> decide

end Field

inductive Expected where
  | count
  | flag
  deriving DecidableEq, Repr

def Expected.text : Expected → Text
  | count => "usize".toList
  | flag => "a boolean".toList

inductive DocumentError where
  | malformed
  | unknownKey (name : Text) (extent : Extent)
  | negative (n : Int) (extent : Extent)
  | mismatch (found : Item) (expected : Expected) (extent : Extent)

namespace DocumentError

def inBackticks (t : Text) : Text :=
  '`' :: t ++ ['`']

/-- The kind of an item, with its value if that is short. -/
def describe : Item → Text
  | .string t => "string ".toList ++ Text.quote t
  | .integer n => "integer ".toList ++ inBackticks (Text.ofInt n)
  | .float x => "floating point ".toList ++ inBackticks x.toText
  | .boolean b => "boolean ".toList ++ inBackticks (Text.ofBool b)
  | .array _ | .tables _ => "sequence".toList
  | .datetime | .table _ _ => "map".toList

def message : DocumentError → Text
  | malformed => "invalid TOML".toList
  | unknownKey name _ =>
    "unknown field ".toList ++ inBackticks name ++ ", expected one of ".toList ++
      [',', ' '].intercalate (Field.all.map fun f ↦ inBackticks f.name)
  | negative n _ =>
    "invalid value: ".toList ++ describe (.integer n) ++ ", expected ".toList ++ Expected.count.text
  | mismatch found expected _ =>
    "invalid type: ".toList ++ describe found ++ ", expected ".toList ++ expected.text

def report (t : Text) : DocumentError → Text
  | malformed => malformed.message
  | unknownKey name extent => diagnose t extent (unknownKey name extent).message
  | negative n extent => diagnose t extent (negative n extent).message
  | mismatch found expected extent => diagnose t extent (mismatch found expected extent).message

end DocumentError

def count (item : Item) (extent : Extent) : Except DocumentError Nat :=
  match item with
  | .integer (.ofNat n) => .ok n
  | .integer n => .error (.negative n extent)
  | item => .error (.mismatch item .count extent)

def flag (item : Item) (extent : Extent) : Except DocumentError Bool :=
  match item with
  | .boolean b => .ok b
  | item => .error (.mismatch item .flag extent)

def entries (t : Text) : Except DocumentError Entries :=
  match document? t with
  | none => .error .malformed
  | some es => .ok es

/-- What a document says of the settings. A field can be missing. -/
structure Given where
  tabWidth : Option Nat := none
  maxContinuationLines : Option Nat := none
  strict : Option Bool := none

namespace Given

def set (g : Given) (f : Field) (item : Item) (extent : Extent) : Except DocumentError Given :=
  match f with
  | .tabWidth => (count item extent).map fun n ↦ { g with tabWidth := some n }
  | .maxContinuationLines => (count item extent).map fun n ↦ { g with maxContinuationLines := some n }
  | .strict => (flag item extent).map fun b ↦ { g with strict := some b }

def setEntry (g : Given) : Entry → Except DocumentError Given
  | (key, extent, item) =>
    match Field.ofName? key.name with
    | some f => g.set f item (extent.getD key.extent)
    | none => .error (.unknownKey key.name key.extent)

def applyTo (g : Given) (s : Settings) : Settings where
  tabWidth := g.tabWidth.getD s.tabWidth
  maxContinuationLines := g.maxContinuationLines.getD s.maxContinuationLines
  strict := g.strict.getD s.strict

end Given

/-- Puts what a document gives over the default settings. All its keys have to be fields. -/
def decode (t : Text) : Except DocumentError Settings := do
  let es ← entries t
  let g ← es.foldlM Given.setEntry {}
  return g.applyTo {}

def set (s : Settings) (f : Field) (item : Item) (extent : Extent) : Except DocumentError Settings :=
  match f with
  | .tabWidth => (count item extent).map fun n ↦ { s with tabWidth := n }
  | .maxContinuationLines => (count item extent).map fun n ↦ { s with maxContinuationLines := n }
  | .strict => (flag item extent).map fun b ↦ { s with strict := b }

def setEntry (s : Settings) : Entry → Except DocumentError Settings
  | (key, extent, item) =>
    match Field.ofName? key.name with
    | some f => s.set f item (extent.getD key.extent)
    | none => .ok s

/-- Reads each field of a document in place of its default. Keys that are no fields are left alone. -/
def decodeLenient (t : Text) : Except DocumentError Settings := do
  let es ← entries t
  es.foldlM setEntry {}

/-- Integers of a document have 64 bits, so greater counts cannot be written. -/
def countText? (n : Nat) : Option Text :=
  if n < integerLimit then some (Text.ofNat n) else none

def encodeLine (f : Field) (value : Text) : Text :=
  f.name ++ " = ".toList ++ value ++ ['\n']

def encode? (s : Settings) : Option Text := do
  let tabWidth ← countText? s.tabWidth
  let maxContinuationLines ← countText? s.maxContinuationLines
  return encodeLine .tabWidth tabWidth ++
    encodeLine .maxContinuationLines maxContinuationLines ++
    encodeLine .strict (Text.ofBool s.strict)

end Settings

end FreeForm
