import FreeForm.Toml.Scalar

namespace FreeForm

namespace Toml

open Text

/-- How deep arrays and tables in braces may nest, and how many parts a dotted key may have, plus one. -/
def depthLimit : Nat := 80

def extentBetween (before after : Text) : Extent :=
  ⟨byteLength before, byteLength after⟩

def isBareKeyChar (c : Char) : Bool :=
  c.isAlphanum || c = '-' || c = '_'

def cutKeyPart (t : Text) : Option (Key × Text) :=
  match cutLineString t with
  | some (name, rest) => some (⟨name, extentBetween t rest⟩, rest)
  | none =>
    match t.takeWhile isBareKeyChar with
    | [] => none
    | name =>
      let rest := t.dropWhile isBareKeyChar
      some (⟨name, extentBetween t rest⟩, rest)

/-- Parts with dots between them, and spaces around each: the last part, those before it, and the
rest. `fuel` bounds the number of parts. -/
def cutKeyParts : (fuel : Nat) → Text → Option (List Key × Key × Text)
  | 0, _ => none
  | fuel + 1, t => do
    let (k, t) ← cutKeyPart (t.dropWhile isSpace)
    match t.dropWhile isSpace with
    | '.' :: t =>
      let (path, last, rest) ← cutKeyParts fuel t
      return (k :: path, last, rest)
    | t => return ([], k, t)

def cutKey (t : Text) : Option (List Key × Key × Text) :=
  cutKeyParts (depthLimit - 1) t

/-- Drops spaces, newlines and comments. A comment has to end with its line. -/
def skipLines (inComment : Bool) : Text → Option Text
  | [] => if inComment then none else some []
  | '\n' :: t => skipLines false t
  | '\r' :: '\n' :: t => skipLines false t
  | c :: t =>
    if inComment then
      if isGraphic c then skipLines true t else none
    else if isSpace c then skipLines false t
    else if c = '#' then skipLines true t
    else some (c :: t)

mutual

/-- A value, with `depth` arrays and tables around it. `fuel` bounds the number of steps. -/
def cutItem : (fuel : Nat) → (depth : Nat) → Text → Option (Item × Text)
  | 0, _, _ => none
  | fuel + 1, depth, t =>
    match t with
    | '"' :: _ | '\'' :: _ => (cutString t).map fun (s, rest) ↦ (.string s, rest)
    | 't' :: 'r' :: 'u' :: 'e' :: rest => some (.boolean true, rest)
    | 'f' :: 'a' :: 'l' :: 's' :: 'e' :: rest => some (.boolean false, rest)
    | '[' :: t =>
      if depth + 1 < depthLimit then
        (cutElements fuel (depth + 1) t).map fun (items, rest) ↦ (.array items, rest)
      else none
    | '\x7b' :: t =>
      if depth + 1 < depthLimit then
        match t.dropWhile isSpace with
        | '\x7d' :: rest => some (.table .inline [], rest)
        | _ => (cutPairs fuel (depth + 1) [] t).map fun (es, rest) ↦ (.table .inline es, rest)
      else none
    | _ => cutNumber t

def cutElements : (fuel : Nat) → (depth : Nat) → Text → Option (List Item × Text)
  | 0, _, _ => none
  | fuel + 1, depth, t =>
    match skipLines false t with
    | none => none
    | some (']' :: rest) => some ([], rest)
    | some t =>
      match cutItem fuel depth t with
      | none => none
      | some (item, t) =>
        match skipLines false t with
        | some (',' :: t) =>
          (cutElements fuel depth t).map fun (items, rest) ↦ (item :: items, rest)
        | some (']' :: rest) => some ([item], rest)
        | _ => none

def cutPairs : (fuel : Nat) → (depth : Nat) → (es : Entries) → Text → Option (Entries × Text)
  | 0, _, _, _ => none
  | fuel + 1, depth, es, t =>
    match cutKey t with
    | some (path, k, '=' :: t) =>
      let t := t.dropWhile isSpace
      match cutItem fuel depth t with
      | none => none
      | some (item, rest) =>
        match es.set path (k, some (extentBetween t rest), item) .inline with
        | none => none
        | some es =>
          match rest.dropWhile isSpace with
          | ',' :: t => cutPairs fuel depth es t
          | '\x7d' :: rest => some (es, rest)
          | _ => none
    | _ => none

end

/-- A value at the start. Each step reads a character, or enters or leaves something that has one. -/
def cutValue (t : Text) : Option (Item × Text) :=
  cutItem (2 * t.length + 2) 0 t

def endLine (t : Text) : Option Text :=
  let t := t.dropWhile isSpace
  let t := match t with
    | '#' :: u => u.dropWhile isGraphic
    | _ => t
  match t with
  | [] => some []
  | '\n' :: t => some t
  | '\r' :: '\n' :: t => some t
  | _ => none

structure Draft where
  entries : Entries
  path : List Key
  deriving Inhabited

namespace Draft

/-- Sets a key of the table at hand, whose extent grows with it. -/
def set (d : Draft) (path : List Key) (e : Entry) : Option Draft :=
  (Entries.within false (e.2.1.map Extent.stop) (Entries.set path e) d.path .header d.entries).map
    fun es ↦ { d with entries := es }

def openHeader (d : Draft) (double : Bool) (path : List Key) (k : Key) (extent : Extent) :
    Option Draft :=
  (Entries.within false none
    (fun _ es ↦ if double then es.openRow k extent else es.openTable k extent) path .header
    d.entries).map fun es ↦ ⟨es, path ++ [k]⟩

def readHeader (d : Draft) (t : Text) : Option (Draft × Text) :=
  match t with
  | '[' :: '[' :: u => do
    match ← cutKey u with
    | (path, k, ']' :: ']' :: rest) =>
      return (← d.openHeader true path k (extentBetween t rest), rest)
    | _ => none
  | '[' :: u => do
    match ← cutKey u with
    | (path, k, ']' :: rest) => return (← d.openHeader false path k (extentBetween t rest), rest)
    | _ => none
  | _ => none

def readPair (d : Draft) (t : Text) : Option (Draft × Text) := do
  match ← cutKey t with
  | (path, k, '=' :: t) =>
    let t := t.dropWhile isSpace
    let (item, rest) ← cutValue t
    return (← d.set path (k, some (extentBetween t rest), item), rest)
  | _ => none

/-- A line at the start of `t`, without what may end any line. -/
def readLine (d : Draft) (t : Text) : Option (Draft × Text) :=
  match t with
  | [] => some (d, t)
  | c :: _ =>
    if c = '#' || c = '\n' || c = '\r' then some (d, t)
    else if c = '[' then d.readHeader t
    else d.readPair t

def read (d : Draft) (t : Text) : Option Draft :=
  let t' := t.dropWhile isSpace
  if t'.isEmpty then some d
  else
    match d.readLine t' with
    | none => none
    | some (d, rest) =>
      match endLine rest with
      | none => none
      | some rest => if rest.length < t.length then read d rest else none
termination_by t.length

end Draft

/-- The entries of a document, which may start with a byte order mark; none if the text is no document. -/
def document? (t : Text) : Option Entries :=
  let body := match t with
    | '\ufeff' :: body => body
    | _ => t
  (Draft.read ⟨[], []⟩ body).map Draft.entries

end Toml

end FreeForm
