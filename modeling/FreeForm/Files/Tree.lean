import FreeForm.Files
import FreeForm.Path

namespace FreeForm

namespace Files

inductive Node where
  | file (bytes : List UInt8)
  | zeros (size : Nat)
  | directory
  | link (target : Text)
  deriving DecidableEq, Repr

abbrev Place := List Text

structure Tree where
  nodes : List (Place × Node)
  workingDirectory : Place
  deriving Repr

namespace Tree

def places (tree : Tree) : List Place :=
  tree.workingDirectory :: tree.nodes.map (·.1)

/-- What stands at a place. Above everything else there are directories. -/
def node? (tree : Tree) (place : Place) : Option Node :=
  match tree.nodes.lookup place with
  | some node => some node
  | none => if tree.places.any place.isPrefixOf then some .directory else none

def namesAt (tree : Tree) (place : Place) : List Text :=
  (tree.places.filterMap fun p ↦
    if place.isPrefixOf p then p[place.length]? else none).eraseDups

def startOf (here : Place) : Text → Place
  | '/' :: _ => []
  | _ => here

def insert (tree : Tree) (path : Text) (node : Node) : Tree :=
  { tree with
    nodes := (startOf tree.workingDirectory path ++ Path.names path, node) :: tree.nodes }

/-- Follows the parts of a path from `place` on, over at most `links` links. What has parts behind it
has to be a directory, even if they lead nowhere. -/
def follow (tree : Tree) (links : Nat) (place : Place) (parts : List Text) :
    Except SystemError Place :=
  match parts with
  | [] => .ok place
  | part :: rest =>
    match tree.node? place with
    | some .directory =>
      match Path.stepOf? part with
      | some .up => follow tree links place.dropLast rest
      | some (.name name) =>
        match tree.node? (place ++ [name]) with
        | none => .error .missing
        | some (.link target) =>
          match links with
          | 0 => .error .tooManyLinks
          | links + 1 =>
            follow tree links (startOf place target) (Path.parts target ++ rest)
        | some _ => follow tree links (place ++ [name]) rest
      | _ => follow tree links place rest
    | _ => .error .notDirectory
termination_by (links, parts.length)

def linkLimit : Nat := 40

def resolve (tree : Tree) (path : Text) : Except SystemError Place :=
  if path.isEmpty then .error .missing
  else tree.follow linkLimit (startOf tree.workingDirectory path) (Path.parts path)

def status (tree : Tree) (path : Text) : Except SystemError Status := do
  let place ← tree.resolve path
  match tree.node? place with
  | some (.file bytes) => .ok (.file bytes.length)
  | some (.zeros size) => .ok (.file size)
  | some .directory => .ok .directory
  | some (.link _) => .ok .other
  | none => .error .missing

def content (tree : Tree) (path : Text) : Except SystemError (List UInt8) := do
  let place ← tree.resolve path
  match tree.node? place with
  | some (.file bytes) => .ok bytes
  | some (.zeros size) => .ok (List.replicate size 0)
  | some .directory => .error .isDirectory
  | some (.link _) | none => .error .missing

def pathOf (place : Place) : Text :=
  place.flatMap ('/' :: ·)

def entries (tree : Tree) (path : Text) : List Entry :=
  match tree.resolve path with
  | .error _ => []
  | .ok place =>
    (tree.namesAt place).map fun name ↦
      ⟨name, match tree.node? (place ++ [name]) with
        | some (.link _) => true
        | _ => false⟩

def files (tree : Tree) : Files Id where
  status := tree.status
  identity path := (tree.resolve path).toOption.map pathOf
  entries := tree.entries
  content := tree.content

end Tree

end Files

end FreeForm
