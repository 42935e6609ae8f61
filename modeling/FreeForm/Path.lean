import FreeForm.Text.Basic

namespace FreeForm

namespace Path

inductive Step where
  | root
  | here
  | up
  | name (t : Text)
  deriving DecidableEq, Repr

def parts (path : Text) : List Text :=
  path.splitOnP (· == '/')

/-- The step of one part. Empty parts and single dots lead nowhere. -/
def stepOf? (part : Text) : Option Step :=
  if part = [] || part = ['.'] then none
  else if part = ['.', '.'] then some .up
  else some (.name part)

/-- The steps of a path. Of single dots only one at the start of a path that has no root counts. -/
def steps (path : Text) : List Step :=
  let start := match path with
    | '/' :: _ => [.root]
    | ['.'] | '.' :: '/' :: _ => [.here]
    | _ => []
  start ++ (parts path).filterMap stepOf?

def Step.name? : Step → Option Text
  | name t => some t
  | root | here | up => none

def names (path : Text) : List Text :=
  (steps path).filterMap Step.name?

def fileName? (path : Text) : Option Text :=
  (steps path).getLast?.bind Step.name?

/-- What follows the last dot of the name, unless the dot is its first character. -/
def extension? (path : Text) : Option Text := do
  let name ← fileName? path
  match name.reverse.span (· ≠ '.') with
  | (extension, _ :: _ :: _) => some extension.reverse
  | _ => none

def child (directory name : Text) : Text :=
  if Text.endsWith '/' directory then directory ++ name else directory ++ '/' :: name

def Step.rank : Step → Nat
  | root => 0
  | here => 1
  | up => 2
  | name _ => 3

def compareNames (s t : Text) : Ordering :=
  List.compareLex (fun c d ↦ compare c.toNat d.toNat) s t

def Step.compare (s t : Step) : Ordering :=
  match s, t with
  | name s, name t => compareNames s t
  | s, t => Ord.compare s.rank t.rank

/-- The path comes no later than the other one. Steps count, not characters: a directory comes before
its content, and this before all names that start with that of the directory. -/
def precedes (p q : Text) : Bool :=
  (List.compareLex Step.compare (steps p) (steps q)).isLE

def sort (paths : List Text) : List Text :=
  paths.mergeSort precedes

end Path

end FreeForm
