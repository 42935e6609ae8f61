import FreeForm.Proofs.Steps

namespace FreeForm

theorem Text.expandTabs_flatten (width : Nat) (pieces : List Text) :
    expandTabs width pieces.flatten = pieces.flatMap (expandTabs width) := by
  induction pieces with
  | nil => rfl
  | cons piece pieces ih => simp [ih]

def PhysicalLine.expanded (tabWidth : Nat) : PhysicalLine → Text
  | text t => Text.expandTabs tabWidth t
  | undecodable => []

def Source.pending (tabWidth : Nat) (source : Source) : Text :=
  source.queue.flatMap Segment.source ++ source.unread.flatMap (PhysicalLine.expanded tabWidth)

theorem Source.pending_ofLines_ofText (tabWidth : Nat) (t : Text) :
    (ofLines (PhysicalLine.ofText t)).pending tabWidth = Text.expandTabs tabWidth t := by
  have h := congrArg (Text.expandTabs tabWidth) (PhysicalLine.flatten_cutLines '\n' t)
  rw [Text.expandTabs_flatten] at h
  simpa [pending, ofLines, PhysicalLine.ofText, List.flatMap_map, PhysicalLine.expanded] using h

theorem Gathered.flatMap_source_gather (tabWidth room : Nat) (c : Continuation) (r : Region)
    (source : Source) :
    (gather tabWidth room c r source).segments.flatMap Segment.source ++
      (gather tabWidth room c r source).source.pending tabWidth = source.pending tabWidth := by
  induction room, c, r, source using gather_induction tabWidth with
  | exhausted => simp [gather_exhausted]
  | undecodable =>
    simp [gather_undecodable, Source.pending, PhysicalLine.expanded]
  | text room c r t unread n ih =>
    rw [gather_text, ih]
    simp [Source.pending, Segment.flatMap_source_ofLine, PhysicalLine.expanded]
  | tooLong => simp [gather_tooLong, Source.pending]
  | complete room c r unread n s queue h =>
    simp [gather_complete _ _ _ _ _ _ h, Source.pending]
  | more room c r unread n s queue h ih =>
    rw [gather_more _ _ _ _ _ _ h, segments_push, source_push, List.flatMap_cons,
      List.append_assoc, ih]
    simp [Source.pending]

namespace Lexer

theorem lines_readingOf {l : Lexer} {g : Gathered} (h : (l.readingOf g).isFailure = false) :
    (l.readingOf g).lines = g.segments.map Segment.source := by
  unfold readingOf at h ⊢
  split at h
  · rfl
  · by_cases hg : g.segments = [] <;> simp [hg, Reading.lines, LogicalLine.ofSegments]
  all_goals simp [Reading.isFailure] at h

theorem settings_next (l : Lexer) : l.next.2.settings = l.settings := rfl

/-- What a call hands out stands in front of what is left after it. -/
theorem lines_next_append {l : Lexer} (h : l.next.1.isFailure = false) :
    l.next.1.lines.flatten ++ l.next.2.source.pending l.settings.tabWidth =
      l.source.pending l.settings.tabWidth := by
  have hg := Gathered.flatMap_source_gather l.settings.tabWidth l.settings.maxContinuationLines
    .closed .code l.source
  have hl : l.next.1.lines = l.gather.segments.map Segment.source := lines_readingOf h
  rw [hl, source_next, ← List.flatMap_def]
  exact hg

theorem flatten_lines_steps (l : Lexer) (h : ∀ s ∈ l.steps, s.reading.isFailure = false) :
    (l.steps.flatMap (·.reading.lines)).flatten = l.source.pending l.settings.tabWidth := by
  induction l using steps_induction with
  | done l hd =>
    have hn := lines_next_append (l := l) (by simp [hd, Reading.isFailure])
    have hs : l.source.pending l.settings.tabWidth = [] := by
      rw [(done_iff l).mp hd]
      rfl
    rw [source_next_of_done hd, hs] at hn
    rw [steps_eq, if_pos hd, hs]
    simpa [step] using hn
  | more l hd ih =>
    rw [steps_eq, if_neg hd] at h ⊢
    have hn := lines_next_append (l := l) (h l.step (by simp))
    have hrest := ih fun s hs ↦ h s (by simp [hs])
    rw [settings_next] at hrest
    simpa [step, hrest] using hn

/-- Nothing is lost, duplicated or reordered: the segments that a run without errors hands out, put
together in order, are the text with its tabs expanded. -/
theorem flatten_lines_eq_expandTabs (t : Text) (s : Settings) (filename : Text)
    (h : ∀ step ∈ (ofBytes (Text.encode t) s filename).steps, step.reading.isFailure = false) :
    ((ofBytes (Text.encode t) s filename).steps.flatMap (·.reading.lines)).flatten =
      Text.expandTabs s.tabWidth t := by
  rw [flatten_lines_steps _ h, ofBytes_encode]
  exact Source.pending_ofLines_ofText s.tabWidth t

theorem flatten_lines_mixed :
    (∀ step ∈ (ofBytes (Text.encode "a; x = 'b&\n\t&;c' ! d\n!$ e; #:if f &\ng".toList)
        ⟨0, 3, false⟩ unnamed).steps, step.reading.isFailure = false) ∧
      ((ofBytes (Text.encode "a; x = 'b&\n\t&;c' ! d\n!$ e; #:if f &\ng".toList)
          ⟨0, 3, false⟩ unnamed).steps.flatMap (·.reading.lines)).flatten =
        "a; x = 'b&\n&;c' ! d\n!$ e; #:if f &\ng".toList := by
  have h : ∀ step ∈ (ofBytes (Text.encode "a; x = 'b&\n\t&;c' ! d\n!$ e; #:if f &\ng".toList)
      ⟨0, 3, false⟩ unnamed).steps, step.reading.isFailure = false := by
    rw [ofBytes_encode, steps_of_stepsWithin 9 rfl]
    decide
  exact ⟨h, (flatten_lines_eq_expandTabs _ _ _ h).trans (by decide)⟩

end Lexer

end FreeForm
