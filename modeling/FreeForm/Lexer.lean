import FreeForm.LexError
import FreeForm.LogicalLine
import FreeForm.Settings
import FreeForm.Source

namespace FreeForm

inductive Ending where
  | complete
  | exhausted
  | tooLong
  | undecodable
  | noSegment
  deriving DecidableEq, Repr

structure Gathered where
  segments : List Segment
  ending : Ending
  source : Source
  deriving Repr

namespace Gathered

def push (s : Segment) (g : Gathered) : Gathered :=
  { g with segments := s :: g.segments }

/-- Gathers segments while one asks for another, at most `room` of them; the one that finds no room
is gathered too. `r` is the region in which the next physical line starts. -/
def gather (tabWidth : Nat) : (room : Nat) → Continuation → Region → Source → Gathered
  | room, c, r, source =>
    match source.supply tabWidth c.directive r with
    | .exhausted => ⟨[], .exhausted, source⟩
    | .undecodable source' => ⟨[], .undecodable, source'⟩
    | .empty source' => ⟨[], .noSegment, source'⟩
    | .segment s r' source' =>
      match room with
      | 0 => ⟨[s], .tooLong, source'⟩
      | room + 1 =>
        if (c.after s).isOpen then (gather tabWidth room (c.after s) r' source').push s
        else ⟨[s], .complete, source'⟩

variable {tabWidth room : Nat} {c : Continuation} {r : Region} {source : Source}

/-- Gathering leaves a smaller source, unless there was nothing at all to gather. -/
theorem smaller_gather :
    (gather tabWidth room c r source).source.Smaller source ∨
      (gather tabWidth room c r source).source = source ∧
      (gather tabWidth room c r source).segments = [] ∧
      (gather tabWidth room c r source).ending = .exhausted := by
  induction room generalizing c r source with
  | zero =>
    unfold gather
    split
    · exact Or.inr ⟨rfl, rfl, rfl⟩
    · next h => exact Or.inl (Source.smaller_of_supply_undecodable h)
    · next h => exact Or.inl (Source.smaller_of_supply_empty h)
    · next h => exact Or.inl (Source.smaller_of_supply_segment h)
  | succ room ih =>
    unfold gather
    split
    · exact Or.inr ⟨rfl, rfl, rfl⟩
    · next h => exact Or.inl (Source.smaller_of_supply_undecodable h)
    · next h => exact Or.inl (Source.smaller_of_supply_empty h)
    · next s r' source' h =>
      have hs := Source.smaller_of_supply_segment h
      dsimp only
      split
      · rcases @ih (c.after s) r' source' with hi | ⟨hi, -⟩
        · exact Or.inl (hi.trans hs)
        · exact Or.inl (by simpa [push, hi] using hs)
      · exact Or.inl hs

end Gathered

structure Lexer where
  settings : Settings
  filename : Text
  source : Source
  truncated : Bool
  deriving Repr

inductive Reading where
  | line (l : LogicalLine)
  | failure (e : ReadError)
  | done
  deriving DecidableEq, Repr

namespace Lexer

def unnamed : Text :=
  "<input>".toList

def ofLines (lines : List PhysicalLine) (settings : Settings) (filename : Text) : Lexer :=
  ⟨settings, filename, .ofLines lines, false⟩

/-- Lexes text as the bytes of its UTF-8 form would be. -/
def ofText (t : Text) (settings : Settings) (filename : Text) : Lexer :=
  ofLines (PhysicalLine.ofText t) settings filename

def ofBytes (bytes : List UInt8) (settings : Settings) (filename : Text) : Lexer :=
  ofLines (PhysicalLine.ofBytes bytes) settings filename

def linesRead (l : Lexer) : Nat :=
  l.source.linesRead

def errorHere (l : Lexer) (fault : Fault) (message : Text) : LexError :=
  ⟨fault, message, l.filename, l.linesRead⟩

def gather (l : Lexer) : Gathered :=
  Gathered.gather l.settings.tabWidth l.settings.maxContinuationLines .closed .code l.source

def readingOf (l : Lexer) (g : Gathered) : Reading :=
  match g.ending with
  | .complete => .line (.ofSegments g.segments)
  | .exhausted => if g.segments.isEmpty then .done else .line (.ofSegments g.segments)
  | .tooLong =>
    .failure (.located (.tooLong (LogicalLine.startOf g.segments) l.settings.maxContinuationLines
      l.filename g.source.linesRead))
  | .undecodable => .failure .undecodable
  | .noSegment => .failure (.located (.noSegment l.filename g.source.linesRead))

/-- Reads the next logical line. After an error the lexer goes on with the next segment or line. -/
def next (l : Lexer) : Reading × Lexer :=
  let g := l.gather
  (l.readingOf g,
    { l with
      source := g.source
      truncated := g.ending = .exhausted && !g.segments.isEmpty })

theorem source_next (l : Lexer) : l.next.2.source = l.gather.source := rfl

theorem smaller_next {l : Lexer} (h : l.next.1 ≠ .done) : l.next.2.source.Smaller l.source := by
  rcases @Gathered.smaller_gather l.settings.tabWidth l.settings.maxContinuationLines .closed .code
    l.source with hs | ⟨-, hg, he⟩
  · exact hs
  · exact absurd (by simp [next, readingOf, gather, hg, he]) h

def run (l : Lexer) : List (Reading × Lexer) :=
  let outcome := l.next
  if _h : outcome.1 = .done then [outcome] else outcome :: run outcome.2
termination_by (l.source.unread.length, l.source.queue.length)
decreasing_by
  rcases smaller_next _h with hs | ⟨he, hs⟩
  · exact Prod.Lex.left _ _ hs
  · rw [Prod.lex_def]
    exact Or.inr ⟨he, hs⟩

end Lexer

end FreeForm
