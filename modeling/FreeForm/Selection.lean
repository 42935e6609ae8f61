import FreeForm.Files
import FreeForm.Glob
import FreeForm.Path

namespace FreeForm

structure Selection where
  exclude : List Glob := []
  extensions : List Text := []
  recursive : Bool := false
  deriving Repr

namespace Selection

/-- A pattern excludes a path if it stands for the path as it is written or for a name in it. -/
def excludes (patterns : List Glob) (path : Text) : Bool :=
  patterns.any fun g ↦ g.accepts path || (Path.names path).any g.accepts

def usualExtensions : List Text :=
  let lower := ["f90", "f95", "f03", "f08", "f18", "f", "for", "ftn", "fpp"].map String.toList
  lower ++ lower.map (·.map Char.toUpper)

def withoutDot : Text → Text
  | '.' :: t => t
  | t => t

def hasKnownExtension (s : Selection) (path : Text) : Bool :=
  match Path.extension? path with
  | some e => usualExtensions.contains e || s.extensions.any (withoutDot · = e)
  | none => false

def depth (s : Selection) : Nat :=
  if s.recursive then 256 else 1

variable {m : Type → Type} [Monad m]

/-- The files at most `depth` names below a directory. Links are followed, but not to a directory in
which the search is already; `around` holds the identities of those. -/
def search (files : Files m) (depth : Nat) (around : List Text) (directory : Text) :
    m (List Text) :=
  match depth with
  | 0 => return []
  | depth + 1 => do
    let around := (← files.identity directory).toList ++ around
    (← files.entries directory).flatMapM fun entry ↦ do
      let path := Path.child directory entry.name
      match ← files.status path with
      | .ok (.file _) => return [path]
      | .ok .directory =>
        let identity ← files.identity path
        if entry.isLink && identity.any around.contains then return []
        else search files depth around path
      | _ => return []

/-- The files that an input stands for; none if there is nothing at this path. -/
def filesAt? (files : Files m) (s : Selection) (input : Text) : m (Option (List Text)) := do
  match ← files.status input with
  | .ok (.file _) => return some ([input].filter (!excludes s.exclude ·))
  | .ok .directory =>
    let found ← search files s.depth [] input
    return some (Path.sort (found.filter fun path ↦
      s.hasKnownExtension path && !excludes s.exclude path))
  | _ => return none

end Selection

end FreeForm
