import FreeForm.Marker

namespace FreeForm

inductive Region where
  | code
  | literal (delimiter : Char)
  /-- An inline span, opened by `sigil` and a brace, closed by a brace and `sigil`. -/
  | span (sigil : Char)
  | comment
  deriving DecidableEq, Repr, Inhabited

namespace Region

open Marker

def isQuoted : Region → Bool
  | literal _ | span _ => true
  | code | comment => false

/-- The region in which the next physical line starts: a comment ends with its line, an open literal
or span does not. -/
def carried : Region → Region
  | comment => code
  | r => r

@[simp] theorem carried_carried (r : Region) : r.carried.carried = r.carried := by
  cases r <;> rfl

structure Step where
  region : Region
  /-- The next character is the second half of a closer. -/
  closing : Bool
  quoted : Bool
  deriving DecidableEq, Repr

/-- Reads the character `c`, with `rest` behind it. The second half of a closer belongs to its span
and opens nothing, whatever it looks like. -/
def step (r : Region) (closing : Bool) (c : Char) (rest : Text) : Step :=
  if closing then ⟨r, false, true⟩
  else match r with
    | code =>
      let ahead := window (c :: rest)
      match opener? ahead with
      | some sigil => ⟨span sigil, false, true⟩
      | none =>
        if endsCode ahead then ⟨comment, false, false⟩
        else if c = '\'' || c = '"' then ⟨literal c, false, true⟩
        else ⟨code, false, false⟩
    | span sigil =>
      if closes sigil (window (c :: rest)) then ⟨code, true, true⟩
      else ⟨span sigil, false, true⟩
    | literal delimiter =>
      if c = delimiter then ⟨code, false, true⟩
      else ⟨literal delimiter, false, true⟩
    | comment => ⟨comment, false, false⟩

end Region

end FreeForm
