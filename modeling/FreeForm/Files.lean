import FreeForm.Text.Basic

namespace FreeForm

structure SystemError where
  message : Text
  code : Nat
  deriving DecidableEq, Repr

namespace SystemError

def report (e : SystemError) : Text :=
  e.message ++ " (os error ".toList ++ Text.ofNat e.code ++ [')']

def missing : SystemError :=
  ⟨"No such file or directory".toList, 2⟩

def notDirectory : SystemError :=
  ⟨"Not a directory".toList, 20⟩

def isDirectory : SystemError :=
  ⟨"Is a directory".toList, 21⟩

def tooManyLinks : SystemError :=
  ⟨"Too many levels of symbolic links".toList, 40⟩

end SystemError

namespace Files

inductive Status where
  | file (size : Nat)
  | directory
  | other
  deriving DecidableEq, Repr

def Status.size : Status → Nat
  | file size => size
  | directory | other => 0

structure Entry where
  name : Text
  isLink : Bool
  deriving DecidableEq, Repr

end Files

open Files

/-- A file system, asked through the actions of `m`. All questions follow links to where they lead. -/
structure Files (m : Type → Type) where
  status : Text → m (Except SystemError Status)
  /-- A name of its own for what stands at a path: two paths to one thing have the same. -/
  identity : Text → m (Option Text)
  entries : Text → m (List Entry)
  content : Text → m (Except SystemError (List UInt8))

end FreeForm
