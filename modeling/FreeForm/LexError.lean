import FreeForm.Text.Basic

namespace FreeForm

inductive Fault where
  | parse
  | internal
  deriving DecidableEq, Repr

/-- An error at a physical line, the first line being 1. -/
structure LexError where
  fault : Fault
  message : Text
  filename : Text
  lineNumber : Nat
  deriving DecidableEq, Repr

namespace LexError

def report (e : LexError) : Text :=
  let fault := match e.fault with
    | .parse => "parse"
    | .internal => "internal"
  e.filename ++ ':' :: Text.ofNat e.lineNumber ++ ": ".toList ++ fault.toList ++
    " error: ".toList ++ e.message

def tooLong (start limit : Nat) (filename : Text) (lineNumber : Nat) : LexError where
  fault := .parse
  message := "logical line starting at line ".toList ++ Text.ofNat start ++
    " exceeds maximum continuation lines (".toList ++ Text.ofNat limit ++ [')']
  filename := filename
  lineNumber := lineNumber

/-- A physical line was cut into no segment at all. -/
def noSegment (filename : Text) (lineNumber : Nat) : LexError where
  fault := .internal
  message := "physical line produced no segment".toList
  filename := filename
  lineNumber := lineNumber

def openAtEnd (filename : Text) (lineNumber : Nat) : LexError where
  fault := .parse
  message := "continuation line at end of file".toList
  filename := filename
  lineNumber := lineNumber

def notReproduced (filename : Text) (lineNumber : Nat) : LexError where
  fault := .internal
  message := "lexed lines do not reproduce the input".toList
  filename := filename
  lineNumber := lineNumber

end LexError

inductive ReadError where
  | located (e : LexError)
  | undecodable
  deriving DecidableEq, Repr

namespace ReadError

def report : ReadError → Text
  | located e => e.report
  | undecodable => "stream did not contain valid UTF-8".toList

end ReadError

end FreeForm
