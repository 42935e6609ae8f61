import FreeForm.Scanner
import FreeForm.Sentinel

namespace FreeForm

open Text

abbrev Sight := Char × Bool

namespace Scanner

/-- Every character of `line`, which is all that is left, and whether it is shown; nothing is from a
halt on. -/
def surveyIn (s : Scanner) : Text → List Sight × Scanner
  | [] => ([], s)
  | c :: rest =>
    match s.read c rest with
    | (.shown, s') =>
      let (sights, last) := s'.surveyIn rest
      ((c, true) :: sights, last)
    | (.hidden, s') =>
      let (sights, last) := s'.surveyIn rest
      ((c, false) :: sights, last)
    | (.halted, s') => ((c, false) :: rest.map fun d ↦ (d, false), s')

theorem map_fst_surveyIn (s : Scanner) (line : Text) :
    (s.surveyIn line).1.map Prod.fst = line := by
  induction line generalizing s with
  | nil => rfl
  | cons c rest ih =>
    rw [surveyIn]
    split <;> simp_all [Function.comp_def]

end Scanner

/-- A stretch of a physical line that belongs to one statement. -/
structure Statement where
  code : Text
  separated : Bool
  comment : Text
  deriving DecidableEq, Repr

namespace Statement

def text (s : Statement) : Text :=
  s.code ++ (if s.separated then [';'] else []) ++ s.comment

/-- Splits before the first mark that ends code, read from region `r` with comments shown. -/
def splitMark (r : Region) (closing : Bool) : Text → Option (Text × Text)
  | [] => none
  | c :: rest =>
    let step := r.step closing c rest
    if !step.quoted && Marker.endsCode (Marker.window (c :: rest)) then some ([], c :: rest)
    else (splitMark step.region step.closing rest).map fun (before, mark) ↦ (c :: before, mark)

theorem append_of_splitMark {r : Region} {closing : Bool} {t before mark : Text}
    (h : splitMark r closing t = some (before, mark)) : before ++ mark = t := by
  induction t generalizing r closing before with
  | nil => simp [splitMark] at h
  | cons c rest ih =>
    rw [splitMark] at h
    split at h
    · simp_all
    · simp only [Option.map_eq_some_iff, Prod.mk.injEq, Prod.exists] at h
      obtain ⟨a, b, hab, rfl, rfl⟩ := h
      simp [ih hab]

/-- The statement that no semicolon closes. What the scan does not show at its end is looked through
once more, from code: it may be an open literal or span, or hold a comment. -/
def ofFinal (sights : List Sight) : Statement :=
  let hidden := (sights.reverse.takeWhile fun (_, shown) ↦ !shown).reverse
  let visible := (sights.reverse.dropWhile fun (_, shown) ↦ !shown).reverse
  match splitMark .code false (hidden.map Prod.fst) with
  | some (before, mark) => ⟨visible.map Prod.fst ++ before, false, mark⟩
  | none => ⟨sights.map Prod.fst, false, []⟩

def ofSights (sights : List Sight) : List Statement :=
  let pieces := sights.splitOnP fun (c, shown) ↦ shown && c = ';'
  let closed := pieces.dropLast
  let final := pieces.getLast?.getD []
  closed.map (fun piece ↦ ⟨piece.map Prod.fst, true, []⟩) ++
    if final.isEmpty && !closed.isEmpty then [] else [ofFinal final]

/-- The statements of a line that starts in region `r`, and the region in which the next line
starts. -/
def ofText (t : Text) (r : Region) : List Statement × Region :=
  let (sights, last) := (Scanner.resume t ⟨true, true⟩ r).surveyIn t
  (ofSights sights, last.carried)

def ofDirective (t : Text) : Statement :=
  ⟨[], false, t⟩

end Statement

/-- A statement with its place in the source. -/
structure Segment extends Statement where
  sentinel : Option Sentinel
  lineNumber : Nat
  newline : Bool
  deriving DecidableEq, Repr

namespace Segment

def source (s : Segment) : Text :=
  Sentinel.textOf s.sentinel ++ s.text

def place (sentinel : Option Sentinel) (lineNumber : Nat) (newline : Bool) :
    List Statement → List Segment
  | [] => []
  | s :: rest => ⟨s, sentinel, lineNumber, newline⟩ :: rest.map (⟨·, none, lineNumber, newline⟩)

/-- The segments of physical line number `lineNumber`, which starts in region `r`, or goes on with a
directive, and the region in which the next line starts. -/
def ofLine (line : Text) (lineNumber : Nat) (inDirective : Bool) (r : Region) :
    List Segment × Region :=
  let (sentinel, rest) := Sentinel.cut line
  let (statements, r') :=
    if inDirective then ([Statement.ofDirective rest], r) else Statement.ofText rest r
  (place sentinel lineNumber (endsWith '\n' line) statements, r')

end Segment

end FreeForm
