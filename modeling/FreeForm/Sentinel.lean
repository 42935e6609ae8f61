import FreeForm.Text.Blank

namespace FreeForm

open Text

/-- The mark `!$` or `!$omp`, which hides a line from compilers without OpenMP, with the blanks around it. -/
structure Sentinel where
  indent : Text
  mark : Text
  gap : Text
  deriving DecidableEq, Repr

namespace Sentinel

/-- What a logical line keeps: the mark and the spaces behind it. -/
def marker (s : Sentinel) : Text :=
  s.mark ++ s.gap

/-- Exactly what was taken off the line. -/
def text (s : Sentinel) : Text :=
  s.indent ++ s.marker

def cutName : Text → Text × Text
  | a :: b :: c :: t =>
    if a.toLower = 'o' && b.toLower = 'm' && c.toLower = 'p' then ([a, b, c], t)
    else ([], a :: b :: c :: t)
  | t => ([], t)

theorem cutName_append (t : Text) : (cutName t).1 ++ (cutName t).2 = t := by
  unfold cutName
  split
  · split <;> rfl
  · rfl

def cut (line : Text) : Option Sentinel × Text :=
  match line.dropWhile isBlank with
  | '!' :: '$' :: t =>
    let (name, t) := cutName t
    (some ⟨line.takeWhile isBlank, '!' :: '$' :: name, t.takeWhile (· = ' ')⟩,
      t.dropWhile (· = ' '))
  | _ => (none, line)

/-- What stands before the code of a line that had the sentinel `s?`, if any. -/
def textOf (s? : Option Sentinel) : Text :=
  (s?.map text).getD []

def markerOf (s? : Option Sentinel) : Text :=
  (s?.map marker).getD []

theorem textOf_cut_append (line : Text) : textOf (cut line).1 ++ (cut line).2 = line := by
  unfold cut
  split
  · next t h =>
    have hline := List.takeWhile_append_dropWhile (p := isBlank) (l := line)
    rw [h] at hline
    simp only [textOf, text, marker, Option.map_some, Option.getD_some, List.append_assoc,
      List.takeWhile_append_dropWhile, List.cons_append, cutName_append, hline]
  · simp [textOf]

end Sentinel

end FreeForm
