import FreeForm.Text.Basic

namespace FreeForm

namespace Glob

inductive CharSet where
  | single (c : Char)
  | range (low high : Char)
  deriving DecidableEq, Repr

namespace CharSet

def contains (c : Char) : CharSet → Bool
  | single d => c = d
  | range low high => low ≤ c && c ≤ high

def parts : Text → List CharSet
  | low :: '-' :: high :: t => range low high :: parts t
  | c :: t => single c :: parts t
  | [] => []

end CharSet

/-- What a pattern is made of. `*` stands for any characters and `**` for any number of whole path components, but
all the others for one character, which may be a slash. -/
inductive Token where
  | char (c : Char)
  | anyChar
  | anySequence
  | anyComponents
  | oneOf (set : List CharSet)
  | noneOf (set : List CharSet)
  deriving DecidableEq, Repr

inductive Fault where
  | stars
  | partialComponent
  | brackets
  deriving DecidableEq, Repr

structure Error where
  fault : Fault
  position : Nat
  deriving DecidableEq, Repr

namespace Error

def report (e : Error) : Text :=
  let message := match e.fault with
    | .stars => "wildcards are either regular `*` or recursive `**`"
    | .partialComponent => "recursive wildcards must form a single path component"
    | .brackets => "invalid range pattern"
  "Pattern syntax error near position ".toList ++ Text.ofNat e.position ++ ": ".toList ++
    message.toList

end Error

/-- Splits at the first `]` behind the first character, which may be a `]` itself. -/
def cutSet : Text → Option (Text × Text)
  | [] => none
  | c :: t =>
    match t.dropWhile (· ≠ ']') with
    | [] => none
    | _ :: rest => some (c :: t.takeWhile (· ≠ ']'), rest)

def cutBrackets : Text → Option (Token × Text)
  | '!' :: t => (cutSet t).map fun (set, rest) ↦ (.noneOf (CharSet.parts set), rest)
  | t => (cutSet t).map fun (set, rest) ↦ (.oneOf (CharSet.parts set), rest)

/-- Adds a `**`. Behind another one it adds nothing, unless that one starts the pattern. -/
def addComponents (tokens : List Token) : List Token :=
  if 1 < tokens.length && tokens.getLast? = some .anyComponents then tokens
  else tokens ++ [.anyComponents]

theorem length_lt_of_cutSet {t set rest : Text} (h : cutSet t = some (set, rest)) :
    rest.length < t.length := by
  unfold cutSet at h
  split at h
  · cases h
  · next c t =>
    have hd := (List.dropWhile_suffix (p := fun x ↦ decide (x ≠ ']')) (l := t)).length_le
    split at h
    · cases h
    · next hr =>
      rw [hr] at hd
      cases h
      simp only [List.length_cons] at hd ⊢
      omega

theorem length_lt_of_cutBrackets {t rest : Text} {token : Token}
    (h : cutBrackets t = some (token, rest)) : rest.length < t.length := by
  unfold cutBrackets at h
  split at h <;> simp only [Option.map_eq_some_iff, Prod.mk.injEq, Prod.exists] at h
  · obtain ⟨set, rest, hs, -, rfl⟩ := h
    exact Nat.lt_succ_of_lt (length_lt_of_cutSet hs)
  · obtain ⟨set, rest, hs, -, rfl⟩ := h
    exact length_lt_of_cutSet hs

/-- Reads the rest of a pattern, of which `position` characters are behind; `before` is the last of
them. -/
def parseFrom (position : Nat) (before : Option Char) (tokens : List Token) (t : Text) :
    Except Error (List Token) :=
  match t with
  | [] => .ok tokens
  | '?' :: t => parseFrom (position + 1) (some '?') (tokens ++ [.anyChar]) t
  | '*' :: '*' :: '*' :: _ => .error ⟨.stars, position + 2⟩
  | '*' :: '*' :: t =>
    if before = none || before = some '/' then
      match t with
      | '/' :: t => parseFrom (position + 3) (some '/') (addComponents tokens) t
      | [] => .ok (addComponents tokens)
      | _ => .error ⟨.partialComponent, position + 2⟩
    else .error ⟨.partialComponent, position - 1⟩
  | '*' :: t => parseFrom (position + 1) (some '*') (tokens ++ [.anySequence]) t
  | '[' :: t =>
    match _h : cutBrackets t with
    | some (token, rest) =>
      parseFrom (position + 1 + t.length - rest.length) (some ']') (tokens ++ [token]) rest
    | none => .error ⟨.brackets, position⟩
  | c :: t => parseFrom (position + 1) (some c) (tokens ++ [.char c]) t
termination_by t.length
decreasing_by
  all_goals simp only [List.length_cons]
  all_goals first
    | omega
    | have := length_lt_of_cutBrackets _h; omega

inductive Verdict where
  | matched
  | mismatched
  /-- The text is too short for the tokens, so no shorter rest of it can do. -/
  | exhausted
  deriving DecidableEq, Repr

/-- Tries `next` on every rest of a text, or on those that start a path component, until one matches
or shows that no other can. -/
def sweep (components : Bool) (next : Text → Verdict) : Text → Verdict
  | [] => next []
  | c :: t =>
    if components && c ≠ '/' then sweep components next t
    else match next t with
      | .mismatched => sweep components next t
      | v => v

def Token.accepts (c : Char) : Token → Bool
  | char d => c = d
  | oneOf set => set.any (CharSet.contains c)
  | noneOf set => !set.any (CharSet.contains c)
  | anyChar | anySequence | anyComponents => true

def compareTokens : List Token → Text → Verdict
  | [], [] => .matched
  | [], _ :: _ => .mismatched
  | token :: tokens, t =>
    if token = .anySequence || token = .anyComponents then
      match compareTokens tokens t with
      | .mismatched => sweep (token = .anyComponents) (compareTokens tokens) t
      | v => v
    else match t with
      | [] => .exhausted
      | c :: t => if token.accepts c then compareTokens tokens t else .mismatched

end Glob

structure Glob where
  tokens : List Glob.Token
  deriving DecidableEq, Repr

namespace Glob

def parse (t : Text) : Except Error Glob :=
  (parseFrom 0 none [] t).map Glob.mk

def accepts (g : Glob) (t : Text) : Bool :=
  compareTokens g.tokens t = .matched

end Glob

end FreeForm
