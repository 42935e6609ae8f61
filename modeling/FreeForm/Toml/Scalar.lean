import FreeForm.Toml.Item
import FreeForm.Toml.Quotation

namespace FreeForm

namespace Toml

/-- Digits behind a digit: each may have one underscore in front. -/
def cutMoreDigits (p : Char → Bool) : Text → Text × Text
  | '_' :: c :: t =>
    if p c then
      let (digits, rest) := cutMoreDigits p t
      (c :: digits, rest)
    else ([], '_' :: c :: t)
  | c :: t =>
    if p c then
      let (digits, rest) := cutMoreDigits p t
      (c :: digits, rest)
    else ([], c :: t)
  | [] => ([], [])

def cutDigits (p : Char → Bool) : Text → Option (Text × Text)
  | c :: t =>
    if p c then
      let (digits, rest) := cutMoreDigits p t
      some (c :: digits, rest)
    else none
  | [] => none

def isDigit (c : Char) : Bool :=
  '0' ≤ c && c ≤ '9'

def cutWhole : Text → Option (Text × Text)
  | '0' :: t => some (['0'], t)
  | t => cutDigits isDigit t

def valueOf (base : Nat) (digits : Text) : Nat :=
  digits.foldl (fun n c ↦ base * n + (hexValue? c).getD 0) 0

def cutSign : Text → Bool × Text
  | '-' :: t => (true, t)
  | '+' :: t => (false, t)
  | t => (false, t)

/-- Integers have 64 bits, one of them for the sign. -/
def integerLimit : Nat :=
  Nat.pow 2 63

def integer? (n : Int) : Option Item :=
  if -(integerLimit : Int) ≤ n && n < integerLimit then some (.integer n) else none

def cutBased (base : Nat) (p : Char → Bool) (t : Text) : Option (Item × Text) := do
  let (digits, rest) ← cutDigits p t
  return (← integer? (valueOf base digits), rest)

def cutInteger : Text → Option (Item × Text)
  | '0' :: 'x' :: t => cutBased 16 (fun c ↦ (hexValue? c).isSome) t
  | '0' :: 'o' :: t => cutBased 8 (fun c ↦ '0' ≤ c && c ≤ '7') t
  | '0' :: 'b' :: t => cutBased 2 (fun c ↦ c = '0' || c = '1') t
  | t => do
    let (negative, t) := cutSign t
    let (digits, rest) ← cutWhole t
    let n : Int := valueOf 10 digits
    return (← integer? (if negative then -n else n), rest)

def cutFraction : Text → Option (Text × Text)
  | '.' :: t => cutDigits isDigit t
  | _ => none

def cutExponent : Text → Option (Int × Text)
  | c :: t =>
    if c = 'e' || c = 'E' then do
      let (negative, t) := cutSign t
      let (digits, rest) ← cutDigits isDigit t
      let n : Int := valueOf 10 digits
      return (if negative then -n else n, rest)
    else none
  | [] => none

/-- A number with a fraction, an exponent or both. One above all finite numbers is refused, one below
them is not. -/
def cutFloat (t : Text) : Option (Item × Text) := do
  let (negative, t) := cutSign t
  let (whole, t) ← cutWhole t
  let (fraction, exponent, rest) ←
    match cutFraction t with
    | some (fraction, t) =>
      match cutExponent t with
      | some (exponent, t) => some (fraction, exponent, t)
      | none => some (fraction, 0, t)
    | none => (cutExponent t).map fun (exponent, t) ↦ ([], exponent, t)
  let x := Double.ofDecimal negative (valueOf 10 (whole ++ fraction)) (exponent - fraction.length)
  if x = .infinite false then none else some (.float x, rest)

def cutSpecialFloat (t : Text) : Option (Item × Text) :=
  match cutSign t with
  | (negative, 'i' :: 'n' :: 'f' :: rest) => some (.float (.infinite negative), rest)
  | (_, 'n' :: 'a' :: 'n' :: rest) => some (.float .nan, rest)
  | _ => none

def cutFixed (n : Nat) (t : Text) : Option (Nat × Text) :=
  let digits := t.take n
  if digits.length = n && digits.all isDigit then some (valueOf 10 digits, t.drop n) else none

def cutField (low high : Nat) (t : Text) : Option (Nat × Text) :=
  (cutFixed 2 t).filter fun (n, _) ↦ low ≤ n && n ≤ high

def cutChar (c : Char) : Text → Option Text
  | d :: t => if d = c then some t else none
  | [] => none

def daysIn (year month : Nat) : Nat :=
  if month = 2 then
    if year % 4 = 0 && year % 100 ≠ 0 || year % 400 = 0 then 29 else 28
  else if month = 4 || month = 6 || month = 9 || month = 11 then 30
  else 31

def cutDate (t : Text) : Option Text := do
  let (year, t) ← cutFixed 4 t
  let t ← cutChar '-' t
  let (month, t) ← cutField 1 12 t
  let t ← cutChar '-' t
  let (_, t) ← cutField 1 (daysIn year month) t
  return t

def cutTime (t : Text) : Option Text := do
  let (_, t) ← cutField 0 23 t
  let t ← cutChar ':' t
  let (_, t) ← cutField 0 59 t
  let t ← cutChar ':' t
  let (_, t) ← cutField 0 60 t
  match t with
  | '.' :: u =>
    match u.takeWhile isDigit with
    | [] => none
    | _ => return u.dropWhile isDigit
  | _ => return t

def cutOffset : Text → Option Text
  | c :: t =>
    if c = 'Z' || c = 'z' then some t
    else if c = '+' || c = '-' then do
      let (_, t) ← cutField 0 23 t
      let t ← cutChar ':' t
      let (_, t) ← cutField 0 59 t
      return t
    else some (c :: t)
  | [] => some []

def cutDatetime (t : Text) : Option (Item × Text) :=
  match cutDate t with
  | none => (cutTime t).map fun rest ↦ (.datetime, rest)
  | some t =>
    match t with
    | c :: u =>
      if c = 'T' || c = 't' || c = ' ' then
        match cutTime u with
        | some u => (cutOffset u).map fun rest ↦ (.datetime, rest)
        | none => some (.datetime, c :: u)
      else some (.datetime, c :: u)
    | [] => some (.datetime, [])

def cutNumber (t : Text) : Option (Item × Text) :=
  cutDatetime t <|> cutFloat t <|> cutSpecialFloat t <|> cutInteger t

end Toml

end FreeForm
