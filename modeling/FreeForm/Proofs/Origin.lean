import FreeForm.Proofs.Steps

namespace FreeForm

def PhysicalLine.text? : PhysicalLine → Option Text
  | text t => some t
  | undecodable => none

namespace Segment

/-- The segment is cut from the line, among those that can be decoded, whose number it bears. -/
def IsFrom (texts : List Text) (tabWidth : Nat) (s : Segment) : Prop :=
  ∃ (t : Text) (n : Nat) (inDirective : Bool) (r : Region), texts[n]? = some t ∧
    s.lineNumber = n + 1 ∧ s ∈ (ofLine (Text.expandTabs tabWidth t) (n + 1) inDirective r).1

variable {sentinel : Option Sentinel} {lineNumber : Nat} {newline : Bool}
  {statements : List Statement} {s : Segment}

theorem of_mem_place (h : s ∈ place sentinel lineNumber newline statements) :
    s.toStatement ∈ statements ∧ (s.sentinel = sentinel ∨ s.sentinel = none) ∧
      s.lineNumber = lineNumber ∧ s.newline = newline := by
  cases statements with
  | nil => cases h
  | cons statement statements =>
    rcases List.mem_cons.mp h with rfl | h
    · exact ⟨List.mem_cons_self, Or.inl rfl, rfl, rfl⟩
    · obtain ⟨other, hmem, rfl⟩ := List.mem_map.mp h
      exact ⟨List.mem_cons_of_mem _ hmem, Or.inr rfl, rfl, rfl⟩

theorem of_mem_ofLine {line : Text} {inDirective : Bool} {r : Region}
    (h : s ∈ (ofLine line lineNumber inDirective r).1) :
    (s.sentinel = (Sentinel.cut line).1 ∨ s.sentinel = none) ∧ s.lineNumber = lineNumber ∧
      s.newline = Text.endsWith '\n' line := by
  obtain ⟨statements, hplace⟩ : ∃ statements, (ofLine line lineNumber inDirective r).1 =
      place (Sentinel.cut line).1 lineNumber (Text.endsWith '\n' line) statements := by
    cases inDirective with
    | true => exact ⟨[.ofDirective (Sentinel.cut line).2], rfl⟩
    | false => exact ⟨(Statement.ofText (Sentinel.cut line).2 r).1, rfl⟩
  rw [hplace] at h
  exact (of_mem_place h).2

end Segment

/-- The source has been read off `texts` up to some line, and the segments that wait are cut from
them. -/
structure Source.IsOver (texts : List Text) (tabWidth : Nat) (source : Source) : Prop where
  unread : source.unread.filterMap PhysicalLine.text? = texts.drop source.linesRead
  queue : ∀ s ∈ source.queue, s.IsFrom texts tabWidth

namespace Gathered

variable {tabWidth room : Nat} {c : Continuation} {r : Region} {source : Source} {texts : List Text}

theorem isOver_gather (h : source.IsOver texts tabWidth) :
    (gather tabWidth room c r source).source.IsOver texts tabWidth ∧
      ∀ s ∈ (gather tabWidth room c r source).segments, s.IsFrom texts tabWidth := by
  induction room, c, r, source using gather_induction tabWidth with
  | exhausted room c r n =>
    rw [gather_exhausted]
    exact ⟨h, by simp⟩
  | undecodable room c r unread n =>
    rw [gather_undecodable]
    exact ⟨⟨h.unread, by simp⟩, by simp⟩
  | text room c r t unread n ih =>
    rw [gather_text]
    have hdrop : t :: unread.filterMap PhysicalLine.text? = texts.drop n := h.unread
    have hhead : texts[n]? = some t := by
      rw [← List.head?_drop, ← hdrop]
      rfl
    have htail : unread.filterMap PhysicalLine.text? = texts.drop (n + 1) := by
      rw [← List.tail_drop, ← hdrop]
      rfl
    exact ih ⟨htail, fun s hs ↦ ⟨t, n, _, _, hhead, (Segment.of_mem_ofLine hs).2.1, hs⟩⟩
  | tooLong c r unread n s queue =>
    rw [gather_tooLong]
    exact ⟨⟨h.unread, fun s' hs ↦ h.queue s' (List.mem_cons_of_mem _ hs)⟩,
      by simpa using h.queue s List.mem_cons_self⟩
  | complete room c r unread n s queue hc =>
    rw [gather_complete _ _ _ _ _ _ hc]
    exact ⟨⟨h.unread, fun s' hs ↦ h.queue s' (List.mem_cons_of_mem _ hs)⟩,
      by simpa using h.queue s List.mem_cons_self⟩
  | more room c r unread n s queue hc ih =>
    obtain ⟨hsource, hsegments⟩ := ih ⟨h.unread, fun s' hs ↦ h.queue s' (List.mem_cons_of_mem _ hs)⟩
    rw [gather_more _ _ _ _ _ _ hc, source_push, segments_push]
    exact ⟨hsource, List.forall_mem_cons.mpr ⟨h.queue s List.mem_cons_self, hsegments⟩⟩

end Gathered

theorem PhysicalLine.filterMap_text?_ofText (t : Text) :
    (ofText t).filterMap text? = cutLines '\n' t := by
  rw [ofText, List.filterMap_map]
  exact List.filterMap_some

namespace Lexer

theorem isOver_afterCalls (l : Lexer) {texts : List Text}
    (h : l.source.IsOver texts l.settings.tabWidth) (n : Nat) :
    (l.afterCalls n).source.IsOver texts l.settings.tabWidth ∧
      (l.afterCalls n).settings = l.settings := by
  induction n with
  | zero => exact ⟨h, rfl⟩
  | succ n ih =>
    obtain ⟨hover, hsettings⟩ := ih
    refine ⟨?_, hsettings⟩
    rw [← hsettings] at hover ⊢
    exact (Gathered.isOver_gather hover).1

/-- Every segment of a logical line bears the number of the physical line that it is cut from. -/
theorem isFrom_of_mem_gather (t : Text) (s : Settings) (filename : Text) (n : Nat) :
    ∀ segment ∈ ((ofText t s filename).afterCalls n).gather.segments,
      segment.IsFrom (PhysicalLine.cutLines '\n' t) s.tabWidth := by
  have hstart : (ofText t s filename).source.IsOver (PhysicalLine.cutLines '\n' t) s.tabWidth :=
    ⟨PhysicalLine.filterMap_text?_ofText t, fun _ hs ↦ absurd hs List.not_mem_nil⟩
  obtain ⟨hover, hsettings⟩ := isOver_afterCalls (ofText t s filename) hstart n
  have hwidth : ((ofText t s filename).afterCalls n).settings.tabWidth = s.tabWidth :=
    congrArg Settings.tabWidth hsettings
  have hover' : ((ofText t s filename).afterCalls n).source.IsOver (PhysicalLine.cutLines '\n' t)
      ((ofText t s filename).afterCalls n).settings.tabWidth := hwidth.symm ▸ hover
  rw [← hwidth]
  exact (Gathered.isOver_gather hover').2

end Lexer

end FreeForm
