import FreeForm.Proofs.Steps
import Mathlib.Data.List.Induction

namespace FreeForm

open Text

/-- The last code that is not blank ends with a continuation mark. -/
def LeavesStatementOpen (segments : List Segment) : Prop :=
  ∃ s ∈ (segments.filter fun s ↦ !s.trimmed.isEmpty).getLast?, endsWith '&' s.trimmed

/-- The last comments, from one that starts a directive on, all end with a continuation mark. -/
def LeavesDirectiveOpen (segments : List Segment) : Prop :=
  ∃ before run, (segments.filter fun s ↦ !s.comment.isEmpty) = before ++ run ∧
    (∃ s ∈ run.head?, Marker.startsDirective (Marker.window s.comment)) ∧
      ∀ s ∈ run, endsWith '&' (trim s.comment)

def LeavesOpen (segments : List Segment) : Prop :=
  LeavesStatementOpen segments ∨ LeavesDirectiveOpen segments

namespace Continuation

theorem statement_foldl (segments : List Segment) :
    (segments.foldl after closed).statement ↔ LeavesStatementOpen segments := by
  induction segments using List.reverseRecOn with
  | nil => simp [LeavesStatementOpen, closed]
  | append_singleton segments s ih =>
    rw [List.foldl_append, List.foldl_cons, List.foldl_nil, LeavesStatementOpen, List.filter_append]
    by_cases hs : s.trimmed.isEmpty
    · simpa [after, hs, LeavesStatementOpen] using ih
    · simp [after, hs]

theorem leavesDirectiveOpen_append_of_isEmpty {segments : List Segment} {s : Segment}
    (hs : s.comment.isEmpty) :
    LeavesDirectiveOpen (segments ++ [s]) ↔ LeavesDirectiveOpen segments := by
  simp [LeavesDirectiveOpen, List.filter_append, hs]

theorem leavesDirectiveOpen_append {segments : List Segment} {s : Segment}
    (hs : s.comment.isEmpty = false) :
    LeavesDirectiveOpen (segments ++ [s]) ↔
      (LeavesDirectiveOpen segments ∨ Marker.startsDirective (Marker.window s.comment)) ∧
        endsWith '&' (trim s.comment) := by
  have hfilter : ((segments ++ [s]).filter fun s ↦ !s.comment.isEmpty) =
      (segments.filter fun s ↦ !s.comment.isEmpty) ++ [s] := by
    simp [List.filter_append, hs]
  rw [LeavesDirectiveOpen, LeavesDirectiveOpen, hfilter]
  generalize segments.filter (fun s ↦ !s.comment.isEmpty) = comments
  constructor
  · -- The last of the run is `s`; without it, the run is one of the segments before, or nothing.
    rintro ⟨before, run, hrun, ⟨first, hfirst, hstarts⟩, hall⟩
    rcases List.eq_nil_or_concat run with rfl | ⟨run, last, rfl⟩
    · cases hfirst
    · rw [List.concat_eq_append] at hrun hfirst hall
      rw [← List.append_assoc] at hrun
      obtain ⟨rfl, hlast⟩ := List.append_inj' hrun rfl
      obtain rfl : s = last := List.singleton_inj.mp hlast
      refine ⟨?_, hall s (by simp)⟩
      cases run with
      | nil =>
        obtain rfl : s = first := Option.some.inj hfirst
        exact Or.inr hstarts
      | cons d run =>
        exact Or.inl ⟨before, d :: run, rfl, ⟨first, hfirst, hstarts⟩,
          fun e he ↦ hall e (List.mem_append_left _ he)⟩
  · rintro ⟨⟨before, run, rfl, ⟨first, hfirst, hstarts⟩, hall⟩ | hstarts, hends⟩
    · refine ⟨before, run ++ [s], List.append_assoc _ _ _, ⟨first, ?_, hstarts⟩, ?_⟩
      · rw [List.head?_append, hfirst]
        rfl
      · rw [List.forall_mem_append]
        exact ⟨hall, by simpa using hends⟩
    · exact ⟨comments, [s], rfl, ⟨s, rfl, hstarts⟩, by simpa using hends⟩

theorem directive_foldl_iff (segments : List Segment) :
    (segments.foldl after closed).directive ↔ LeavesDirectiveOpen segments := by
  induction segments using List.reverseRecOn with
  | nil => simp [LeavesDirectiveOpen, closed]
  | append_singleton segments s ih =>
    rw [List.foldl_append, List.foldl_cons, List.foldl_nil]
    by_cases hs : s.comment.isEmpty
    · rw [leavesDirectiveOpen_append_of_isEmpty hs, ← ih]
      simp [after, hs]
    · rw [leavesDirectiveOpen_append (by simpa using hs), ← ih]
      simp [after, hs]

theorem isOpen_foldl (segments : List Segment) :
    (segments.foldl after closed).isOpen ↔ LeavesOpen segments := by
  rw [LeavesOpen, ← statement_foldl, ← directive_foldl_iff, isOpen, Bool.or_eq_true]

end Continuation

namespace Gathered

variable {tabWidth room : Nat} {c : Continuation} {r : Region} {source : Source}

theorem isOpen_foldl_take {i : Nat} (hi : 0 < i)
    (h : i < (gather tabWidth room c r source).segments.length) :
    (((gather tabWidth room c r source).segments.take i).foldl Continuation.after c).isOpen := by
  induction room, c, r, source using gather_induction tabWidth generalizing i with
  | exhausted => simp [gather_exhausted] at h
  | undecodable => simp [gather_undecodable] at h
  | text room c r t unread n ih =>
    rw [gather_text] at h ⊢
    exact ih hi h
  | tooLong =>
    simp [gather_tooLong] at h
    omega
  | complete room c r unread n s queue hc =>
    simp [gather_complete _ _ _ _ _ _ hc] at h
    omega
  | more room c r unread n s queue hc ih =>
    rw [gather_more _ _ _ _ _ _ hc, segments_push] at h ⊢
    obtain ⟨i, rfl⟩ : ∃ j, i = j + 1 := ⟨i - 1, by omega⟩
    rw [List.take_succ_cons, List.foldl_cons]
    -- Behind `s` itself it is the test made there, behind a later one the rest of the gathering.
    by_cases h0 : i = 0
    · rwa [h0, List.take_zero, List.foldl_nil]
    · exact ih (by omega) (by simpa using h)

theorem isOpen_foldl_of_complete (h : (gather tabWidth room c r source).ending = .complete) :
    ((gather tabWidth room c r source).segments.foldl Continuation.after c).isOpen = false := by
  induction room, c, r, source using gather_induction tabWidth with
  | exhausted => simp [gather_exhausted] at h
  | undecodable => simp [gather_undecodable] at h
  | text room c r t unread n ih =>
    rw [gather_text] at h ⊢
    exact ih h
  | tooLong => simp [gather_tooLong] at h
  | complete room c r unread n s queue hc => simpa [gather_complete _ _ _ _ _ _ hc] using hc
  | more room c r unread n s queue hc ih =>
    rw [gather_more _ _ _ _ _ _ hc] at h ⊢
    exact ih h

theorem isOpen_foldl_of_exhausted (h : (gather tabWidth room c r source).ending = .exhausted)
    (hc : c.isOpen ∨ (gather tabWidth room c r source).segments ≠ []) :
    ((gather tabWidth room c r source).segments.foldl Continuation.after c).isOpen := by
  induction room, c, r, source using gather_induction tabWidth with
  | exhausted => simpa [gather_exhausted] using hc
  | undecodable => simp [gather_undecodable] at h
  | text room c r t unread n ih =>
    rw [gather_text] at h hc ⊢
    exact ih h hc
  | tooLong => simp [gather_tooLong] at h
  | complete room c r unread n s queue hclosed =>
    simp [gather_complete _ _ _ _ _ _ hclosed] at h
  | more room c r unread n s queue hopen ih =>
    rw [gather_more _ _ _ _ _ _ hopen] at h ⊢
    exact ih h (Or.inl hopen)

end Gathered

namespace Lexer

theorem truncated_next_iff (l : Lexer) :
    l.next.2.truncated ↔ l.gather.ending = .exhausted ∧ l.gather.segments ≠ [] := by
  simp [next]

theorem isLine_of_truncated {l : Lexer} (h : l.next.2.truncated) :
    l.next.1 = .line (.ofSegments l.gather.segments) := by
  obtain ⟨he, hs⟩ := (truncated_next_iff l).mp h
  simp [next, readingOf, he, hs]

theorem truncated_iff_leavesOpen {l : Lexer} {line : LogicalLine} (h : l.next.1 = .line line) :
    l.next.2.truncated ↔ LeavesOpen l.gather.segments := by
  obtain ⟨hne, -, he⟩ := segments_of_line h
  rw [truncated_next_iff, ← Continuation.isOpen_foldl]
  rcases he with he | he
  · have hclosed : (l.gather.segments.foldl Continuation.after .closed).isOpen = false :=
      Gathered.isOpen_foldl_of_complete he
    simp [he, hclosed]
  · have hopen : (l.gather.segments.foldl Continuation.after .closed).isOpen :=
      Gathered.isOpen_foldl_of_exhausted he (Or.inr hne)
    simp [he, hne, hopen]

/-- A logical line is open behind each of its segments but the last one, and behind that exactly if
it is reported to be truncated. Then nothing at all is left, so that the next call ends the run; and
nothing but a logical line is ever reported to be truncated. -/
theorem leavesOpen_gather (l : Lexer) :
    (∀ line, l.next.1 = .line line →
        line.lines = l.gather.segments.map Segment.source ∧
          (∀ i, i + 1 < l.gather.segments.length → LeavesOpen (l.gather.segments.take (i + 1))) ∧
          (l.next.2.truncated = false ↔ ¬LeavesOpen l.gather.segments)) ∧
      (l.next.2.truncated → l.next.2.source.unread = [] ∧ l.next.2.source.queue = [] ∧
        l.next.2.next.1 = .done) ∧
      ((∀ line, l.next.1 ≠ .line line) → l.next.2.truncated = false) := by
  refine ⟨fun line h ↦ ?_, fun h ↦ ?_, fun h ↦ ?_⟩
  · obtain ⟨-, hline, -⟩ := segments_of_line h
    refine ⟨by rw [hline]; rfl, fun i hi ↦ ?_, ?_⟩
    · exact (Continuation.isOpen_foldl _).mp (Gathered.isOpen_foldl_take i.succ_pos hi)
    · rw [← truncated_iff_leavesOpen h, Bool.not_eq_true]
  · have hsource := Gathered.source_of_exhausted ((truncated_next_iff l).mp h).1
    refine ⟨congrArg Source.unread hsource, congrArg Source.queue hsource, ?_⟩
    exact (done_iff _).mpr hsource
  · by_contra ht
    exact h _ (isLine_of_truncated (by simpa using ht))

/-- A statement kept open over a comment and closed in front of a directive, which the end of the
source breaks off. -/
def brokenOff : Text :=
  "x = &\n! c &\n1 #:if a &\nb; c & \n".toList

theorem leavesOpen_gather_brokenOff :
    (ofText brokenOff ⟨8, 100, false⟩ unnamed).next.1 =
        .line ⟨"x = 1".toList,
          [[], "! c &".toList, "#:if a &".toList, "b; c & ".toList],
          ["x = &\n".toList, "! c &\n".toList, "1 #:if a &\n".toList, "b; c & \n".toList], 1⟩ ∧
      (∀ i < 3, LeavesOpen
        ((ofText brokenOff ⟨8, 100, false⟩ unnamed).gather.segments.take (i + 1))) ∧
      LeavesOpen (ofText brokenOff ⟨8, 100, false⟩ unnamed).gather.segments ∧
      (ofText brokenOff ⟨8, 100, false⟩ unnamed).next.2.next.1 = .done := by
  have hline : (ofText brokenOff ⟨8, 100, false⟩ unnamed).next.1 =
      .line ⟨"x = 1".toList,
        [[], "! c &".toList, "#:if a &".toList, "b; c & ".toList],
        ["x = &\n".toList, "! c &\n".toList, "1 #:if a &\n".toList, "b; c & \n".toList], 1⟩ := rfl
  have ht : (ofText brokenOff ⟨8, 100, false⟩ unnamed).next.2.truncated = true := rfl
  obtain ⟨hlines, hend, -⟩ := leavesOpen_gather (ofText brokenOff ⟨8, 100, false⟩ unnamed)
  obtain ⟨-, hopen, hlast⟩ := hlines _ hline
  refine ⟨hline, fun i hi ↦ hopen i (Nat.add_lt_add_right hi 1), ?_, (hend ht).2.2⟩
  by_contra hclosed
  cases ht.symm.trans (hlast.mpr hclosed)

end Lexer

end FreeForm
