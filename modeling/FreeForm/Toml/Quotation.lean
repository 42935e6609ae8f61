import FreeForm.Text.Basic

namespace FreeForm

namespace Toml

def isSpace (c : Char) : Bool :=
  c = ' ' || c = '\t'

def isGraphic (c : Char) : Bool :=
  c = '\t' || ' ' ≤ c && c ≠ '\x7f'

def hexValue? (c : Char) : Option Nat :=
  if '0' ≤ c && c ≤ '9' then some (c.toNat - '0'.toNat)
  else if 'a' ≤ c && c ≤ 'f' then some (c.toNat - 'a'.toNat + 10)
  else if 'A' ≤ c && c ≤ 'F' then some (c.toNat - 'A'.toNat + 10)
  else none

def scalar? (digits : Text) : Option Char := do
  let n ← digits.foldlM (fun n c ↦ (hexValue? c).map (16 * n + ·)) 0
  if n.isValidChar then some (Char.ofNat n) else none

def simpleEscape? (c : Char) : Option Char :=
  match c with
  | 'b' => some '\x08'
  | 'f' => some '\x0c'
  | 'n' => some '\n'
  | 'r' => some '\r'
  | 't' => some '\t'
  | '\\' => some '\\'
  | '"' => some '"'
  | _ => none

def consTo (c? : Option Char) (r? : Option (Text × Text)) : Option (Text × Text) := do
  let c ← c?
  let (t, rest) ← r?
  return (c :: t, rest)

/-- Reads behind the opening quote. Gives what is quoted, and what follows the closing quote. -/
def cutBasic : Text → Option (Text × Text)
  | [] => none
  | '"' :: t => some ([], t)
  | '\\' :: 'u' :: a :: b :: c :: d :: t => consTo (scalar? [a, b, c, d]) (cutBasic t)
  | '\\' :: 'U' :: a :: b :: c :: d :: e :: f :: g :: h :: t =>
    consTo (scalar? [a, b, c, d, e, f, g, h]) (cutBasic t)
  | '\\' :: c :: t => consTo (simpleEscape? c) (cutBasic t)
  | c :: t => if isGraphic c then consTo (some c) (cutBasic t) else none

def cutLiteral : Text → Option (Text × Text)
  | [] => none
  | '\'' :: t => some ([], t)
  | c :: t => if isGraphic c then consTo (some c) (cutLiteral t) else none

def endsLine (t : Text) : Bool :=
  match t.dropWhile isSpace with
  | '\n' :: _ | '\r' :: '\n' :: _ => true
  | _ => false

/-- Reads behind the three opening quotes. Up to two quotes may stand just before the closing three.
`skipping` is set behind a backslash that ends its line, up to the next visible character. -/
def cutBasicLines (skipping : Bool) : Text → Option (Text × Text)
  | [] => none
  | '"' :: '"' :: '"' :: '"' :: '"' :: t => some (['"', '"'], t)
  | '"' :: '"' :: '"' :: '"' :: t => some (['"'], t)
  | '"' :: '"' :: '"' :: t => some ([], t)
  | '\\' :: 'u' :: a :: b :: c :: d :: t => consTo (scalar? [a, b, c, d]) (cutBasicLines false t)
  | '\\' :: 'U' :: a :: b :: c :: d :: e :: f :: g :: h :: t =>
    consTo (scalar? [a, b, c, d, e, f, g, h]) (cutBasicLines false t)
  | '\\' :: c :: t =>
    if endsLine (c :: t) then cutBasicLines true (c :: t)
    else consTo (simpleEscape? c) (cutBasicLines false t)
  | '\r' :: '\n' :: t =>
    if skipping then cutBasicLines true t else consTo (some '\n') (cutBasicLines false t)
  | c :: t =>
    if skipping && (isSpace c || c = '\n') then cutBasicLines true t
    else if isGraphic c || c = '\n' then consTo (some c) (cutBasicLines false t)
    else none

def cutLiteralLines : Text → Option (Text × Text)
  | [] => none
  | '\'' :: '\'' :: '\'' :: '\'' :: '\'' :: t => some (['\'', '\''], t)
  | '\'' :: '\'' :: '\'' :: '\'' :: t => some (['\''], t)
  | '\'' :: '\'' :: '\'' :: t => some ([], t)
  | '\r' :: '\n' :: t => consTo (some '\n') (cutLiteralLines t)
  | c :: t => if isGraphic c || c = '\n' then consTo (some c) (cutLiteralLines t) else none

def dropNewline : Text → Text
  | '\n' :: t => t
  | '\r' :: '\n' :: t => t
  | t => t

def cutString : Text → Option (Text × Text)
  | '"' :: '"' :: '"' :: t => cutBasicLines false (dropNewline t)
  | '"' :: t => cutBasic t
  | '\'' :: '\'' :: '\'' :: t => cutLiteralLines (dropNewline t)
  | '\'' :: t => cutLiteral t
  | _ => none

def cutLineString : Text → Option (Text × Text)
  | '"' :: t => cutBasic t
  | '\'' :: t => cutLiteral t
  | _ => none

end Toml

end FreeForm
