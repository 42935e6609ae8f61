import FreeForm.Text.Basic

namespace FreeForm

open Text

namespace Declaration

def spaces (n : Nat) : Text :=
  List.replicate n ' '

def cutSpaces : Text → Nat × Text
  | ' ' :: t =>
    let (n, rest) := cutSpaces t
    (n + 1, rest)
  | t => (0, t)

theorem spaces_cutSpaces_append (t : Text) : spaces (cutSpaces t).1 ++ (cutSpaces t).2 = t := by
  fun_induction cutSpaces t with
  | case1 t n rest h ih => simpa [spaces, List.replicate_succ, h] using ih
  | case2 => rfl

def depthLimit : Nat := 3

/-- With `depth` parentheses open, cuts the text behind the one that closes the first of them. -/
def cutClosing : (depth : Nat) → Text → Option (Text × Text)
  | _, [] => none
  | depth, c :: t =>
    if c = '(' then
      if depth < depthLimit then (cutClosing (depth + 1) t).map fun (u, rest) ↦ (c :: u, rest)
      else none
    else if c = ')' then
      if depth ≤ 1 then some ([c], t)
      else (cutClosing (depth - 1) t).map fun (u, rest) ↦ (c :: u, rest)
    else (cutClosing depth t).map fun (u, rest) ↦ (c :: u, rest)

def cutGroup : Text → Option (Text × Text)
  | '(' :: t => (cutClosing 1 t).map fun (u, rest) ↦ ('(' :: u, rest)
  | _ => none

theorem append_of_cutClosing {depth : Nat} {t u rest : Text}
    (h : cutClosing depth t = some (u, rest)) : u ++ rest = t := by
  fun_induction cutClosing depth t generalizing u with
  | case1 => cases h
  | case3 => cases h
  | case4 =>
    cases h
    rfl
  | case2 _ _ _ ih | case5 _ _ _ _ ih | case6 _ _ _ _ _ ih =>
    simp only [Option.map_eq_some_iff, Prod.mk.injEq, Prod.exists] at h
    obtain ⟨u, rest, hu, rfl, rfl⟩ := h
    simp [ih hu]

theorem append_of_cutGroup {t u rest : Text} (h : cutGroup t = some (u, rest)) : u ++ rest = t := by
  unfold cutGroup at h
  split at h
  · simp only [Option.map_eq_some_iff, Prod.mk.injEq, Prod.exists] at h
    obtain ⟨u, rest, hu, rfl, rfl⟩ := h
    simp [append_of_cutClosing hu]
  · cases h

/-- Letters of names: ASCII, the underscore, and the two characters outside ASCII that are case
variants of ASCII letters. -/
def isNameChar (c : Char) : Bool :=
  c.isAlphanum || c = '_' || c = '\u017f' || c = '\u212a'

/-- The old way to give a length: a star and a number behind the type. -/
structure Length where
  before : Nat
  after : Nat
  digits : Text
  deriving DecidableEq, Repr

def Length.text (l : Length) : Text :=
  spaces l.before ++ '*' :: spaces l.after ++ l.digits

structure Attribute where
  before : Nat
  after : Nat
  name : Text
  group : Option (Nat × Text)
  deriving DecidableEq, Repr

namespace Attribute

def groupText (a : Attribute) : Text :=
  match a.group with
  | some (gap, group) => spaces gap ++ group
  | none => []

def text (a : Attribute) : Text :=
  spaces a.before ++ ',' :: spaces a.after ++ a.name ++ a.groupText

end Attribute

/-- All of a declaration statement up to the entity list, in order. It is read as far as it goes, but something
has to be left for the entities. -/
structure Head where
  indent : Nat
  keyword : Text
  length : Option Length
  typeGap : Nat
  parameters : Option Text
  parametersGap : Nat
  attributes : List Attribute
  attributesGap : Nat
  doubleColon : Bool
  deriving DecidableEq, Repr

namespace Head

def typeSpec (h : Head) : Text :=
  h.keyword ++ ((h.length.map Length.text).getD [])

def attributesText (h : Head) : Text :=
  h.attributes.flatMap Attribute.text

def colons (h : Head) : Text :=
  if h.doubleColon then [':', ':'] else []

/-- Takes the last piece back: `::`, a space, a group, a letter or a digit, but an attribute or a
length with it if it cannot do without. Gives the shorter head and what it gave back; the keyword
stays. -/
def giveBack (h : Head) : Option (Head × Text) :=
  if h.doubleColon then some ({ h with doubleColon := false }, [':', ':'])
  else match h.attributesGap with
  | n + 1 => some ({ h with attributesGap := n }, [' '])
  | 0 =>
    match h.attributes.getLast? with
    | some a =>
      let front := h.attributes.dropLast
      match a.group, a.name.reverse with
      | some (gap, group), _ =>
        some ({ h with attributes := front ++ [{ a with group := none }], attributesGap := gap },
          group)
      | none, c :: d :: name =>
        some ({ h with attributes := front ++ [{ a with name := (d :: name).reverse }] }, [c])
      | none, _ =>
        some ({ h with attributes := front, attributesGap := a.before },
          ',' :: spaces a.after ++ a.name)
    | none =>
      match h.parametersGap, h.parameters, h.typeGap, h.length with
      | n + 1, _, _, _ => some ({ h with parametersGap := n }, [' '])
      | 0, some group, _, _ => some ({ h with parameters := none }, group)
      | 0, none, n + 1, _ => some ({ h with typeGap := n }, [' '])
      | 0, none, 0, some l =>
        match l.digits.reverse with
        | c :: d :: digits =>
          some ({ h with length := some { l with digits := (d :: digits).reverse } }, [c])
        | _ => some ({ h with length := none, typeGap := l.before }, '*' :: spaces l.after ++ l.digits)
      | 0, none, 0, none => none

end Head

def keywords : List (Text × Bool) :=
  [("integer".toList, true), ("logical".toList, false), ("character".toList, true),
    ("real".toList, true), ("complex".toList, true), ("type".toList, false)]

def cutKeyword (t : Text) : Option (Text × Bool × Text) :=
  keywords.findSome? fun (word, hasLength) ↦
    (cutWord word t).map fun (u, rest) ↦ (u, hasLength, rest)

def cutLength (t : Text) : Option (Length × Text) :=
  let (before, t) := cutSpaces t
  match t with
  | '*' :: t =>
    let (after, t) := cutSpaces t
    match t.takeWhile Char.isDigit with
    | [] => none
    | digits => some (⟨before, after, digits⟩, t.dropWhile Char.isDigit)
  | _ => none

def cutAttribute (t : Text) : Option (Attribute × Text) :=
  let (before, t) := cutSpaces t
  match t with
  | ',' :: t =>
    let (after, t) := cutSpaces t
    match t.takeWhile isNameChar with
    | [] => none
    | name =>
      let t := t.dropWhile isNameChar
      let (gap, u) := cutSpaces t
      match cutGroup u with
      | some (group, rest) => some (⟨before, after, name, some (gap, group)⟩, rest)
      | none => some (⟨before, after, name, none⟩, t)
  | _ => none

theorem append_of_cutAttribute {t rest : Text} {a : Attribute}
    (h : cutAttribute t = some (a, rest)) : a.text ++ rest = t := by
  have hb := spaces_cutSpaces_append t
  simp only [cutAttribute] at h
  split at h
  · next u hu =>
    rw [hu] at hb
    have ha := spaces_cutSpaces_append u
    split at h
    · cases h
    · next hn =>
      have hw := List.takeWhile_append_dropWhile (p := isNameChar) (l := (cutSpaces u).2)
      split at h
      · next group rest' hg =>
        have hs := spaces_cutSpaces_append ((cutSpaces u).2.dropWhile isNameChar)
        cases h
        rw [← append_of_cutGroup hg] at hs
        simp only [Attribute.text, Attribute.groupText, List.append_assoc, List.cons_append]
        rw [hs, hw, ha, hb]
      · cases h
        simp only [Attribute.text, Attribute.groupText, List.append_assoc, List.cons_append,
          List.nil_append]
        rw [hw, ha, hb]
  · cases h

theorem length_lt_of_cutAttribute {t rest : Text} {a : Attribute}
    (h : cutAttribute t = some (a, rest)) : rest.length < t.length := by
  have := congrArg List.length (append_of_cutAttribute h)
  simp only [Attribute.text, List.length_append, List.length_cons] at this
  omega

def cutAttributes (t : Text) : List Attribute × Text :=
  match _h : cutAttribute t with
  | some (a, rest) =>
    let (attributes, rest) := cutAttributes rest
    (a :: attributes, rest)
  | none => ([], t)
termination_by t.length
decreasing_by exact length_lt_of_cutAttribute _h

/-- The value if there is one, with the text behind it; else the whole text. -/
def orAll {α : Type} (t : Text) : Option (α × Text) → Option α × Text
  | some (a, rest) => (some a, rest)
  | none => (none, t)

def cutHead (t : Text) : Option (Head × Text) := do
  let (indent, t) := cutSpaces t
  let (keyword, hasLength, t) ← cutKeyword t
  let (length, t) := orAll t (if hasLength then cutLength t else none)
  let (typeGap, t) := cutSpaces t
  let (parameters, t) := orAll t (cutGroup t)
  let (parametersGap, t) := cutSpaces t
  let (attributes, t) := cutAttributes t
  let (attributesGap, t) := cutSpaces t
  let (doubleColon, t) := match t with
    | ':' :: ':' :: t => (true, t)
    | t => (false, t)
  return (⟨indent, keyword, length, typeGap, parameters, parametersGap, attributes, attributesGap,
    doubleColon⟩, t)

end Declaration

structure Declaration where
  head : Declaration.Head
  vars : Text
  newline : Bool
  deriving DecidableEq, Repr

namespace Declaration

def ofRest (h : Head) (t : Text) : Declaration where
  head := h
  vars := t.takeWhile (· ≠ '\n')
  newline := !(t.dropWhile (· ≠ '\n')).isEmpty

def ofText? (t : Text) : Option Declaration := do
  let (head, rest) ← cutHead t
  if (rest.takeWhile (· ≠ '\n')).isEmpty then
    let (head, piece) ← head.giveBack
    return ofRest head (piece ++ rest)
  else return ofRest head rest

def typeSpec (d : Declaration) : Text :=
  d.head.typeSpec

def parameters (d : Declaration) : Option Text :=
  d.head.parameters

def attributes (d : Declaration) : Option Text :=
  if d.head.attributes.isEmpty then none else some d.head.attributesText

def doubleColon (d : Declaration) : Bool :=
  d.head.doubleColon

end Declaration

end FreeForm
