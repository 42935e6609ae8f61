import FreeForm.Text.GraphemeExtend
import FreeForm.Text.Unprintable

namespace FreeForm

namespace Text

def hexDigits (n : Nat) : Text :=
  Nat.toDigits 16 n

def numberEscape (c : Char) : Text :=
  ['\\', 'u', '\x7b'] ++ hexDigits c.toNat ++ ['\x7d']

/-- The characters that cannot stand alone. The halfwidth voicing marks extend a character, too, but
have a place of their own. -/
def isCombining (c : Char) : Bool :=
  isGraphemeExtend c && !(c = '\uff9e' || c = '\uff9f')

def escapeChar (c : Char) : Text :=
  if c = '\x00' then ['\\', '0']
  else if c = '\t' then ['\\', 't']
  else if c = '\r' then ['\\', 'r']
  else if c = '\n' then ['\\', 'n']
  else if c = '\\' || c = '"' then ['\\', c]
  else if ' ' ≤ c && c ≤ '~' then [c]
  else if isCombining c || isUnprintable c then numberEscape c
  else [c]

/-- The text on one line, in double quotes, with nothing in it that cannot be seen. -/
def quote (t : Text) : Text :=
  '"' :: t.flatMap escapeChar ++ ['"']

end Text

end FreeForm
