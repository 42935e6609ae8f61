import FreeForm.Proofs.Simulation

namespace FreeForm

def Segment.later (k : Nat) (s : Segment) : Segment :=
  { s with lineNumber := s.lineNumber + k }

def Source.later (k : Nat) (source : Source) : Source :=
  ⟨source.unread, source.linesRead + k, source.queue.map (Segment.later k)⟩

def Gathered.later (k : Nat) (g : Gathered) : Gathered :=
  ⟨g.segments.map (Segment.later k), g.ending, g.source.later k⟩

def LogicalLine.later (k : Nat) (l : LogicalLine) : LogicalLine :=
  { l with lineNumber := l.lineNumber + k }

def Lexer.later (k : Nat) (l : Lexer) : Lexer :=
  { l with source := l.source.later k }

/-- The same error, `k` physical lines further down: also the line that the message names moves. -/
inductive ReadError.Later (k : Nat) : ReadError → ReadError → Prop
  | tooLong (start limit : Nat) (filename : Text) (n : Nat) :
      Later k (.located (.tooLong start limit filename n))
        (.located (.tooLong (start + k) limit filename (n + k)))
  | undecodable : Later k .undecodable .undecodable

inductive Reading.Later (k : Nat) : Reading → Reading → Prop
  | line (l : LogicalLine) : Later k (.line l) (.line (l.later k))
  | failure {e e' : ReadError} (h : e.Later k e') : Later k (.failure e) (.failure e')
  | done : Later k .done .done

structure Lexer.Step.Later (k : Nat) (a b : Step) : Prop where
  reading : a.reading.Later k b.reading
  linesRead : b.linesRead = a.linesRead + k
  truncated : b.truncated = a.truncated

variable {tabWidth room : Nat} {c : Continuation} {r : Region} {source : Source}

theorem Segment.place_later (k : Nat) (sentinel : Option Sentinel) (n : Nat) (newline : Bool)
    (statements : List Statement) :
    place sentinel (n + k) newline statements =
      (place sentinel n newline statements).map (later k) := by
  cases statements <;> simp [place, later, Function.comp_def]

theorem Segment.ofLine_later (k : Nat) (line : Text) (n : Nat) (inDirective : Bool) (r : Region) :
    ofLine line (n + k) inDirective r =
      ((ofLine line n inDirective r).1.map (later k), (ofLine line n inDirective r).2) := by
  cases inDirective with
  | true => rw [ofLine_directive, ofLine_directive, place_later]
  | false => rw [ofLine_code, ofLine_code, place_later]

theorem Gathered.gather_later (k : Nat) :
    gather tabWidth room c r (source.later k) = (gather tabWidth room c r source).later k := by
  induction room, c, r, source using gather_induction tabWidth with
  | exhausted room c r n => simp [Source.later, gather_exhausted, later]
  | undecodable room c r unread n => simp [Source.later, gather_undecodable, later]
  | text room c r t unread n ih =>
    have hn : n + k + 1 = n + 1 + k := by omega
    rw [gather_text, ← ih]
    simp only [Source.later, List.map_nil]
    rw [gather_text, hn, Segment.ofLine_later]
  | tooLong c r unread n s queue => simp [Source.later, gather_tooLong, later]
  | complete room c r unread n s queue h =>
    have h' : (c.after (s.later k)).isOpen = false := h
    simp [Source.later, gather_complete _ _ _ _ _ _ h, gather_complete _ _ _ _ _ _ h', later]
  | more room c r unread n s queue h ih =>
    have h' : (c.after (s.later k)).isOpen := h
    simp only [Source.later, List.map_cons] at ih ⊢
    rw [gather_more _ _ _ _ _ _ h, gather_more _ _ _ _ _ _ h',
      show c.after (s.later k) = c.after s from rfl, ih]
    rfl

theorem LogicalLine.ofSegments_later (k : Nat) {segments : List Segment} (h : segments ≠ []) :
    ofSegments (segments.map (Segment.later k)) = (ofSegments segments).later k := by
  obtain ⟨s, rest, rfl⟩ := List.exists_cons_of_ne_nil h
  simp only [ofSegments, later, List.foldl_map, List.map_map]
  rfl

namespace Lexer

theorem gather_later (k : Nat) (l : Lexer) : (l.later k).gather = l.gather.later k :=
  Gathered.gather_later k

theorem next_later (k : Nat) (l : Lexer) : (l.later k).next.2 = l.next.2.later k := by
  simp only [next, gather_later]
  simp only [Gathered.later, List.isEmpty_map]
  rfl

theorem reading_later (k : Nat) (l : Lexer) : l.next.1.Later k (l.later k).next.1 := by
  have hne : l.gather.ending ≠ .exhausted → l.gather.ending ≠ .undecodable →
      l.gather.segments ≠ [] := Gathered.segments_ne_nil
  have hseg : l.gather.ending ≠ .noSegment := Gathered.ending_ne_noSegment
  simp only [next, gather_later]
  generalize l.gather = g at hne hseg
  unfold readingOf
  cases he : g.ending with
  | complete =>
    have hg := hne (by simp [he]) (by simp [he])
    simp only [Gathered.later, he, LogicalLine.ofSegments_later k hg]
    exact .line _
  | exhausted =>
    by_cases hg : g.segments = []
    · simp only [Gathered.later, he, hg]
      exact .done
    · simp only [Gathered.later, he, List.isEmpty_map, List.isEmpty_iff, hg, if_false,
        LogicalLine.ofSegments_later k hg]
      exact .line _
  | tooLong =>
    have hg := hne (by simp [he]) (by simp [he])
    obtain ⟨s, rest, hs⟩ := List.exists_cons_of_ne_nil hg
    simp only [Gathered.later, he, hs]
    exact .failure (.tooLong s.lineNumber _ _ _)
  | undecodable =>
    simp only [Gathered.later, he]
    exact .failure .undecodable
  | noSegment => exact absurd he hseg

theorem step_later (k : Nat) (l : Lexer) : l.step.Later k (l.later k).step where
  reading := reading_later k l
  linesRead := by rw [step, step, next_later]; rfl
  truncated := by rw [step, step, next_later]; rfl

theorem done_later_iff (k : Nat) (l : Lexer) : (l.later k).next.1 = .done ↔ l.next.1 = .done := by
  have h := reading_later k l
  constructor
  · intro hd
    rw [hd] at h
    generalize l.next.1 = reading at h
    cases h
    rfl
  · intro hd
    rw [hd] at h
    generalize (l.later k).next.1 = reading at h
    cases h
    rfl

theorem steps_later (k : Nat) (l : Lexer) :
    List.Forall₂ (Step.Later k) l.steps (l.later k).steps := by
  apply forall₂_steps (R := fun l l' ↦ l' = l.later k)
  · rintro l _ rfl
    exact step_later k l
  · rintro l _ rfl
    exact done_later_iff k l
  · rintro l _ rfl
    exact next_later k l
  · rfl

end Lexer

def Source.append (source : Source) (lines : List PhysicalLine) : Source :=
  { source with unread := source.unread ++ lines }

def Gathered.append (g : Gathered) (lines : List PhysicalLine) : Gathered :=
  { g with source := g.source.append lines }

def Lexer.append (l : Lexer) (lines : List PhysicalLine) : Lexer :=
  { l with source := l.source.append lines }

theorem Gathered.gather_append (lines : List PhysicalLine)
    (h : (gather tabWidth room c r source).ending ≠ .exhausted) :
    gather tabWidth room c r (source.append lines) =
      (gather tabWidth room c r source).append lines := by
  induction room, c, r, source using gather_induction tabWidth with
  | exhausted => simp [gather_exhausted] at h
  | undecodable room c r unread n => simp [Source.append, gather_undecodable, append]
  | text room c r t unread n ih =>
    rw [gather_text] at h
    rw [gather_text, ← ih h]
    exact gather_text _ _ _ _ _ _ _
  | tooLong c r unread n s queue => simp [Source.append, gather_tooLong, append]
  | complete room c r unread n s queue hc =>
    simp [Source.append, gather_complete _ _ _ _ _ _ hc, append]
  | more room c r unread n s queue hc ih =>
    rw [gather_more _ _ _ _ _ _ hc] at h ⊢
    simp only [Source.append] at ih ⊢
    rw [gather_more _ _ _ _ _ _ hc, ih h]
    rfl

namespace Lexer

theorem source_eq_of_done {l : Lexer} (h : l.next.1 = .done) :
    l.source = ⟨[], l.finalRead, []⟩ := by
  rw [finalRead_of_done h, linesRead, source_next_of_done h]
  exact (done_iff l).mp h

theorem truncated_of_exhausted {l : Lexer} (h : l.gather.ending = .exhausted)
    (hd : l.next.1 ≠ .done) : l.step.truncated = true := by
  have hs : l.gather.segments ≠ [] := fun hs ↦ hd ((done_iff_gather l).mpr ⟨h, hs⟩)
  simp [step, next, h, hs]

theorem steps_of_exhausted {l : Lexer} (h : l.gather.ending = .exhausted) (hd : l.next.1 ≠ .done) :
    l.steps.dropLast = [l.step] := by
  have hn : l.next.2.next.1 = .done := (done_iff _).mpr (Gathered.source_of_exhausted h)
  rw [steps_eq, if_neg hd, steps_eq, if_pos hn]
  rfl

theorem steps_append_of_not_truncated (l : Lexer) (lines : List PhysicalLine)
    (h : ∀ s ∈ l.steps.dropLast.getLast?, s.truncated = false) :
    (l.append lines).steps =
      l.steps.dropLast ++ steps ⟨l.settings, l.filename, ⟨lines, l.finalRead, []⟩, false⟩ := by
  induction l using steps_induction with
  | done l hd =>
    have hs : l.append lines = ⟨l.settings, l.filename, ⟨lines, l.finalRead, []⟩, l.truncated⟩ := by
      rw [append, source_eq_of_done hd]
      rfl
    rw [hs, steps_eq l, if_pos hd]
    exact steps_truncated _ _ _ _ _
  | more l hd ih =>
    have hne : l.gather.ending ≠ .exhausted := by
      intro he
      rw [steps_of_exhausted he hd] at h
      simpa [truncated_of_exhausted he hd] using h l.step
    have hg : (l.append lines).gather = l.gather.append lines := Gathered.gather_append lines hne
    have hreading : (l.append lines).next.1 = l.next.1 := by
      simp only [next, hg]
      rfl
    have hnext : (l.append lines).next.2 = l.next.2.append lines := by
      simp only [next, hg]
      rfl
    have hstep : (l.append lines).step = l.step := by
      rw [step, hreading, hnext]
      rfl
    have hsteps : l.steps.dropLast = l.step :: l.next.2.steps.dropLast := by
      rw [steps_eq, if_neg hd, List.dropLast_cons_of_ne_nil (steps_ne_nil _)]
    have hrest : ∀ s ∈ l.next.2.steps.dropLast.getLast?, s.truncated = false := by
      intro s hs
      rw [hsteps, List.getLast?_cons, hs] at h
      exact h s rfl
    rw [steps_eq, hreading, if_neg hd, hstep, hnext, ih hrest, hsteps, finalRead_next hd]
    rfl

/-- Lexing is compositional over line boundaries, also across lines that are not UTF-8 and logical
lines that are too long: the steps over the first part, without its end, then those over the second
part, which differ from those over the second part alone in their line numbers only. -/
theorem steps_append {p : List UInt8} (hp : p = [] ∨ p.getLast? = some 10) (q : List UInt8)
    (s : Settings) (filename : Text)
    (ht : ∀ step ∈ (ofBytes p s filename).steps.dropLast.getLast?, step.truncated = false) :
    ∃ later, (ofBytes (p ++ q) s filename).steps =
        (ofBytes p s filename).steps.dropLast ++ later ∧
      List.Forall₂ (Step.Later (ofBytes p s filename).finalRead)
        (ofBytes q s filename).steps later := by
  have hsplit : ofBytes (p ++ q) s filename =
      (ofBytes p s filename).append (PhysicalLine.ofBytes q) := by
    rw [ofBytes, PhysicalLine.ofBytes_append hp]
    rfl
  refine ⟨((ofBytes q s filename).later (ofBytes p s filename).finalRead).steps, ?_,
    steps_later _ _⟩
  rw [hsplit, steps_append_of_not_truncated _ _ ht]
  simp [later, ofBytes, ofLines, Source.later, Source.ofLines]

/-- With room for one segment, a logical line broken off by a line that is not UTF-8, and one that
is too long, a literal being open. -/
def brokenSource : List UInt8 :=
  Text.encode "a; b &\n".toList ++ [255, 10] ++ Text.encode "'c &\nd; e\n".toList

theorem steps_append_brokenSource :
    brokenSource.getLast? = some 10 ∧
      (∀ step ∈ (ofBytes brokenSource ⟨8, 1, false⟩ unnamed).steps.dropLast.getLast?,
        step.truncated = false) ∧
      ∃ later, (ofBytes (brokenSource ++ Text.encode "&f &\ng".toList) ⟨8, 1, false⟩ unnamed).steps =
          (ofBytes brokenSource ⟨8, 1, false⟩ unnamed).steps.dropLast ++ later ∧
        List.Forall₂ (Step.Later (ofBytes brokenSource ⟨8, 1, false⟩ unnamed).finalRead)
          (ofBytes (Text.encode "&f &\ng".toList) ⟨8, 1, false⟩ unnamed).steps later := by
  have hp : brokenSource.getLast? = some 10 := rfl
  have ht : ∀ step ∈ (ofBytes brokenSource ⟨8, 1, false⟩ unnamed).steps.dropLast.getLast?,
      step.truncated = false := by
    rw [steps_of_stepsWithin 9 rfl]
    decide
  exact ⟨hp, ht, steps_append (Or.inr hp) _ _ _ ht⟩

end Lexer

end FreeForm
