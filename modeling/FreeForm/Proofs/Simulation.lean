import FreeForm.Proofs.Steps
import Mathlib.Data.List.Forall2

namespace FreeForm

inductive Reading.Agrees (T : LogicalLine → LogicalLine → Prop) : Reading → Reading → Prop
  | line {l l' : LogicalLine} (h : T l l') : Agrees T (.line l) (.line l')
  | failure (e : ReadError) : Agrees T (.failure e) (.failure e)
  | done : Agrees T .done .done

structure Lexer.Step.Agrees (T : LogicalLine → LogicalLine → Prop) (a b : Step) : Prop where
  reading : a.reading.Agrees T b.reading
  linesRead : b.linesRead = a.linesRead
  truncated : b.truncated = a.truncated

theorem Reading.Agrees.done_iff {T : LogicalLine → LogicalLine → Prop} {a b : Reading}
    (h : a.Agrees T b) : b = .done ↔ a = .done := by
  cases h <;> simp

/-- Runs of lexers that correspond show steps that correspond. -/
theorem Lexer.forall₂_steps {R : Lexer → Lexer → Prop} {S : Step → Step → Prop}
    (hstep : ∀ l l', R l l' → S l.step l'.step)
    (hdone : ∀ l l', R l l' → (l'.next.1 = .done ↔ l.next.1 = .done))
    (hnext : ∀ l l', R l l' → R l.next.2 l'.next.2) {l l' : Lexer} (h : R l l') :
    List.Forall₂ S l.steps l'.steps := by
  induction l using steps_induction generalizing l' with
  | done l hd =>
    rw [steps_eq, steps_eq l', if_pos hd, if_pos ((hdone l l' h).mpr hd)]
    exact .cons (hstep l l' h) .nil
  | more l hd ih =>
    have hd' : l'.next.1 ≠ .done := fun hd' ↦ hd ((hdone l l' h).mp hd')
    rw [steps_eq, steps_eq l', if_neg hd, if_neg hd']
    exact .cons (hstep l l' h) (ih (hnext l l' h))

def PhysicalLine.respell (p : Text → Text) : PhysicalLine → PhysicalLine
  | text t => text (p t)
  | undecodable => undecodable

def Source.respell (p : Text → Text) (f : Segment → Segment) (source : Source) : Source :=
  ⟨source.unread.map (PhysicalLine.respell p), source.linesRead, source.queue.map f⟩

def Gathered.respell (p : Text → Text) (f : Segment → Segment) (g : Gathered) : Gathered :=
  ⟨g.segments.map f, g.ending, g.source.respell p f⟩

def Lexer.respell (tabWidth : Nat) (p : Text → Text) (f : Segment → Segment) (l : Lexer) : Lexer :=
  { l with settings := { l.settings with tabWidth := tabWidth }, source := l.source.respell p f }

theorem Lexer.ofText_respell {p : Text → Text} {t t' : Text}
    (h : PhysicalLine.cutLines '\n' t' = (PhysicalLine.cutLines '\n' t).map p) (f : Segment → Segment)
    (s : Settings) (filename : Text) (tabWidth : Nat) :
    ofText t' { s with tabWidth := tabWidth } filename =
      (ofText t s filename).respell tabWidth p f := by
  simp only [ofText, PhysicalLine.ofText, h, ofLines, Source.ofLines, respell, Source.respell,
    List.map_map, List.map_nil]
  rfl

/-- Wherever `I` holds, a line in the other spelling has the same segments in the other spelling, each
of them satisfies `P` and leaves the same things open, and `I` holds behind them again. -/
structure IsRespelling (tabWidth tabWidth' : Nat) (p : Text → Text) (f : Segment → Segment)
    (P : Segment → Prop) (I : Continuation → Region → Source → Prop) : Prop where
  line : ∀ {c : Continuation} {r : Region} {t : Text} {unread : List PhysicalLine} {n : Nat},
    I c r ⟨.text t :: unread, n, []⟩ →
      Segment.ofLine (Text.expandTabs tabWidth' (p t)) (n + 1) c.directive r =
          ((Segment.ofLine (Text.expandTabs tabWidth t) (n + 1) c.directive r).1.map f,
            (Segment.ofLine (Text.expandTabs tabWidth t) (n + 1) c.directive r).2) ∧
        I c (Segment.ofLine (Text.expandTabs tabWidth t) (n + 1) c.directive r).2
          ⟨unread, n + 1, (Segment.ofLine (Text.expandTabs tabWidth t) (n + 1) c.directive r).1⟩
  undecodable : ∀ {c : Continuation} {r : Region} {unread : List PhysicalLine} {n : Nat},
    I c r ⟨.undecodable :: unread, n, []⟩ → I c r ⟨unread, n, []⟩
  segment : ∀ {c : Continuation} {r : Region} {unread : List PhysicalLine} {n : Nat} {s : Segment}
    {queue : List Segment}, I c r ⟨unread, n, s :: queue⟩ →
      P s ∧ c.after (f s) = c.after s ∧ I (c.after s) r ⟨unread, n, queue⟩
  restart : ∀ {c : Continuation} {r : Region} {source : Source}, I c r source → I .closed .code source
  lineNumber : ∀ s, (f s).lineNumber = s.lineNumber

namespace IsRespelling

variable {tabWidth tabWidth' : Nat} {p : Text → Text} {f : Segment → Segment}
  {P : Segment → Prop} {I : Continuation → Region → Source → Prop}
  (hf : IsRespelling tabWidth tabWidth' p f P I)
include hf

theorem gather (room : Nat) {c : Continuation} {r : Region} {source : Source} (h : I c r source) :
    Gathered.gather tabWidth' room c r (source.respell p f) =
        (Gathered.gather tabWidth room c r source).respell p f ∧
      (∀ s ∈ (Gathered.gather tabWidth room c r source).segments, P s) ∧
      I .closed .code (Gathered.gather tabWidth room c r source).source := by
  induction room, c, r, source using Gathered.gather_induction tabWidth with
  | exhausted room c r n =>
    rw [Gathered.gather_exhausted]
    exact ⟨Gathered.gather_exhausted _ _ _ _ _, by simp, hf.restart h⟩
  | undecodable room c r unread n =>
    rw [Gathered.gather_undecodable]
    exact ⟨Gathered.gather_undecodable _ _ _ _ _ _, by simp, hf.restart (hf.undecodable h)⟩
  | text room c r t unread n ih =>
    obtain ⟨hline, hread⟩ := hf.line h
    obtain ⟨hgather, hrest⟩ := ih hread
    rw [Gathered.gather_text, ← hgather]
    refine ⟨(Gathered.gather_text _ _ _ _ _ _ _).trans ?_, hrest⟩
    rw [hline]
    rfl
  | tooLong c r unread n s queue =>
    obtain ⟨hs, -, htail⟩ := hf.segment h
    rw [Gathered.gather_tooLong]
    exact ⟨Gathered.gather_tooLong _ _ _ _ _ _ _, by simpa using hs, hf.restart htail⟩
  | complete room c r unread n s queue hc =>
    obtain ⟨hs, hafter, htail⟩ := hf.segment h
    rw [Gathered.gather_complete _ _ _ _ _ _ hc]
    exact ⟨Gathered.gather_complete _ _ _ _ _ _ (hafter ▸ hc), by simpa using hs, hf.restart htail⟩
  | more room c r unread n s queue hc ih =>
    obtain ⟨hs, hafter, htail⟩ := hf.segment h
    obtain ⟨hgather, hsegments, hrest⟩ := ih htail
    rw [Gathered.gather_more _ _ _ _ _ _ hc]
    refine ⟨(Gathered.gather_more _ _ _ _ _ _ (hafter ▸ hc)).trans ?_,
      List.forall_mem_cons.mpr ⟨hs, hsegments⟩, hrest⟩
    rw [hafter]
    exact congrArg (Gathered.push (f s)) hgather

theorem startOf (segments : List Segment) :
    LogicalLine.startOf (segments.map f) = LogicalLine.startOf segments := by
  cases segments with
  | nil => rfl
  | cons s segments => exact hf.lineNumber s

variable {T : LogicalLine → LogicalLine → Prop}
  (hT : ∀ segments : List Segment, (∀ s ∈ segments, P s) →
    T (.ofSegments segments) (.ofSegments (segments.map f)))
include hT

theorem readingOf {l l' : Lexer} {g : Gathered}
    (hlimit : l'.settings.maxContinuationLines = l.settings.maxContinuationLines)
    (hfilename : l'.filename = l.filename) (hP : ∀ s ∈ g.segments, P s) :
    (l.readingOf g).Agrees T (l'.readingOf (g.respell p f)) := by
  have hstart := hf.startOf g.segments
  simp only [Lexer.readingOf, Gathered.respell, hlimit, hfilename, hstart, List.isEmpty_map]
  cases g.ending with
  | complete => exact .line (hT _ hP)
  | exhausted =>
    dsimp only
    split
    · exact .done
    · exact .line (hT _ hP)
  | tooLong | undecodable | noSegment => exact .failure _

theorem step {l : Lexer} (hwidth : l.settings.tabWidth = tabWidth) (h : I .closed .code l.source) :
    l.step.Agrees T (l.respell tabWidth' p f).step ∧
      (l.respell tabWidth' p f).next.2 = l.next.2.respell tabWidth' p f ∧
      I .closed .code l.next.2.source := by
  subst hwidth
  obtain ⟨hgather, hP, hrest⟩ := hf.gather l.settings.maxContinuationLines h
  have hgather' : (l.respell tabWidth' p f).gather = l.gather.respell p f := hgather
  have hnext : (l.respell tabWidth' p f).next.2 = l.next.2.respell tabWidth' p f := by
    simp only [Lexer.next, hgather']
    simp only [Gathered.respell, List.isEmpty_map]
    rfl
  refine ⟨⟨?_, ?_, ?_⟩, hnext, hrest⟩
  · simp only [Lexer.step, Lexer.next, hgather']
    exact hf.readingOf hT rfl rfl hP
  · rw [Lexer.step, hnext]
    rfl
  · rw [Lexer.step, hnext]
    rfl

/-- In another spelling a source is lexed to the same outcomes, and read at the same pace. -/
theorem steps {l : Lexer} (hwidth : l.settings.tabWidth = tabWidth) (h : I .closed .code l.source) :
    List.Forall₂ (Lexer.Step.Agrees T) l.steps (l.respell tabWidth' p f).steps := by
  apply Lexer.forall₂_steps (R := fun l l' ↦ l' = l.respell tabWidth' p f ∧
    l.settings.tabWidth = tabWidth ∧ I .closed .code l.source)
  · rintro l _ ⟨rfl, hwidth, h⟩
    exact (hf.step hT hwidth h).1
  · rintro l _ ⟨rfl, hwidth, h⟩
    exact (hf.step hT hwidth h).1.reading.done_iff
  · rintro l _ ⟨rfl, hwidth, h⟩
    exact ⟨(hf.step hT hwidth h).2.1, hwidth, (hf.step hT hwidth h).2.2⟩
  · exact ⟨rfl, hwidth, h⟩

end IsRespelling

end FreeForm
