import FreeForm.Text.Basic

namespace FreeForm

namespace Marker

open Text

def isSigil (c : Char) : Bool :=
  c = '#' || c = '$' || c = '@'

/-- The sigil of the inline span that opens at the start of the text. -/
def opener? : Text → Option Char
  | c :: '{' :: _ => if isSigil c then some c else none
  | _ => none

def hasCloser : Text → Bool
  | '}' :: c :: t => isSigil c || hasCloser (c :: t)
  | _ :: t => hasCloser t
  | [] => false

/-- The text starts with a brace and `sigil`, and holds a closer. Only a sigil makes a closer, so in
a window of two characters `sigil` has to be one. -/
def closes (sigil : Char) : Text → Bool
  | '}' :: c :: t => c == sigil && hasCloser ('}' :: c :: t)
  | _ => false

def startsDirective : Text → Bool
  | '#' :: '!' :: _ => true
  | c :: ':' :: _ => isSigil c
  | _ => false

/-- A preprocessor line starts here: a `#` that neither directives nor inline spans claim. A `#` that
ends the text starts nothing. -/
def startsPreprocessor : Text → Bool
  | '#' :: c :: _ => !(c = '!' || c = ':' || c = '{' || c = '}')
  | _ => false

def startsComment : Text → Bool
  | '!' :: _ => true
  | _ => false

/-- Code ends here: a comment, a directive line or a preprocessor line starts. -/
def endsCode (t : Text) : Bool :=
  startsDirective t || startsPreprocessor t || startsComment t

/-- All that the marks depend on. -/
def window (t : Text) : Text :=
  t.take 2

def windowAt? (t : Text) (offset : Nat) : Option Text :=
  (fromByte? t offset).map window

end Marker

end FreeForm
