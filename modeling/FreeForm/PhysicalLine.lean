import FreeForm.Text.Encoding

namespace FreeForm

/-- A line as it stands in a source, with its newline if it has one. A line that is not UTF-8 is still one line. -/
inductive PhysicalLine where
  | text (t : Text)
  | undecodable
  deriving DecidableEq, Repr

namespace PhysicalLine

/-- Cuts behind each `newline`. Only the last line can lack it, and no line is empty. -/
def cutLines {α : Type} [BEq α] (newline : α) (l : List α) : List (List α) :=
  let pieces := l.splitOnP (· == newline)
  let final := pieces.getLast?.getD []
  pieces.dropLast.map (· ++ [newline]) ++ if final.isEmpty then [] else [final]

def ofText (t : Text) : List PhysicalLine :=
  (cutLines '\n' t).map text

def ofBytes (bytes : List UInt8) : List PhysicalLine :=
  (cutLines 10 bytes).map fun line ↦
    match Text.decode? line with
    | some t => text t
    | none => undecodable

end PhysicalLine

end FreeForm
