import FreeForm.Proofs.Offsets
import FreeForm.Proofs.Steps

namespace FreeForm

namespace Gathered

variable {tabWidth room : Nat} {c : Continuation} {r : Region} {source : Source}

theorem unread_gather_suffix :
    (gather tabWidth room c r source).source.unread <:+ source.unread := by
  induction room, c, r, source using gather_induction tabWidth with
  | exhausted => simp [gather_exhausted]
  | undecodable => simp [gather_undecodable]
  | text room c r t unread n ih =>
    rw [gather_text]
    exact ih.trans (List.suffix_cons _ _)
  | tooLong => simp [gather_tooLong]
  | complete room c r unread n s queue h => simp [gather_complete _ _ _ _ _ _ h]
  | more room c r unread n s queue h ih =>
    rw [gather_more _ _ _ _ _ _ h]
    exact ih

theorem undecodable_mem_unread (h : (gather tabWidth room c r source).ending = .undecodable) :
    .undecodable ∈ source.unread := by
  induction room, c, r, source using gather_induction tabWidth with
  | exhausted => simp [gather_exhausted] at h
  | undecodable => exact List.mem_cons_self
  | text room c r t unread n ih =>
    rw [gather_text] at h
    exact List.mem_cons_of_mem _ (ih h)
  | tooLong => simp [gather_tooLong] at h
  | complete room c r unread n s queue hc => simp [gather_complete _ _ _ _ _ _ hc] at h
  | more room c r unread n s queue hc ih =>
    rw [gather_more _ _ _ _ _ _ hc] at h
    exact ih h

end Gathered

namespace Lexer

variable {l : Lexer} {n m : Nat}

theorem gather_of_failure {e : ReadError} (h : l.next.1 = .failure e) :
    (l.gather.ending = .undecodable ∧ e = .undecodable) ∨
      (l.gather.ending = .tooLong ∧
        e = .located (.tooLong (LogicalLine.startOf l.gather.segments)
          l.settings.maxContinuationLines l.filename l.next.2.linesRead)) := by
  have hseg : l.gather.ending ≠ .noSegment := Gathered.ending_ne_noSegment
  simp only [next, readingOf] at h
  split at h
  · cases h
  · split at h <;> cases h
  · next he => exact Or.inr ⟨he, (Reading.failure.inj h).symm⟩
  · next he => exact Or.inl ⟨he, (Reading.failure.inj h).symm⟩
  · next he => exact absurd he hseg

theorem isFailure_iff :
    l.next.1.isFailure ↔ l.gather.ending = .undecodable ∨ l.gather.ending = .tooLong := by
  constructor
  · intro h
    cases hr : l.next.1 with
    | failure e => exact (gather_of_failure hr).imp And.left And.left
    | line | done => simp [hr, Reading.isFailure] at h
  · rintro (h | h) <;> simp [next, readingOf, h, Reading.isFailure]

theorem afterCalls_next (l : Lexer) (n : Nat) : l.next.2.afterCalls n = l.afterCalls (n + 1) := by
  induction n with
  | zero => rfl
  | succ n ih =>
    rw [afterCalls, ih]
    rfl

theorem exists_of_mem_steps {s : Step} (h : s ∈ l.steps) : ∃ n, s = (l.afterCalls n).step := by
  induction l using steps_induction with
  | done l hd =>
    rw [steps_eq, if_pos hd] at h
    exact ⟨0, List.mem_singleton.mp h⟩
  | more l hd ih =>
    rw [steps_eq, if_neg hd] at h
    rcases List.mem_cons.mp h with rfl | h
    · exact ⟨0, rfl⟩
    · obtain ⟨n, rfl⟩ := ih h
      exact ⟨n + 1, by rw [afterCalls_next]⟩

theorem settings_afterCalls (l : Lexer) (n : Nat) : (l.afterCalls n).settings = l.settings := by
  induction n with
  | zero => rfl
  | succ n ih => exact ih

theorem filename_afterCalls (l : Lexer) (n : Nat) : (l.afterCalls n).filename = l.filename := by
  induction n with
  | zero => rfl
  | succ n ih => exact ih

theorem unread_afterCalls_suffix (l : Lexer) (n : Nat) :
    (l.afterCalls n).source.unread <:+ l.source.unread := by
  induction n with
  | zero => exact List.suffix_rfl
  | succ n ih => exact Gathered.unread_gather_suffix.trans ih

theorem ending_ne_undecodable (t : Text) (s : Settings) (filename : Text) (n : Nat) :
    ((ofText t s filename).afterCalls n).gather.ending ≠ .undecodable := by
  intro h
  have hmem := (unread_afterCalls_suffix _ n).subset (Gathered.undecodable_mem_unread h)
  simp [ofText, ofLines, Source.ofLines, PhysicalLine.ofText] at hmem

theorem done_next (h : l.next.1 = .done) : l.next.2.next.1 = .done := by
  rw [done_iff, source_next_of_done h]
  exact (done_iff l).mp h

theorem done_afterCalls (h : (l.afterCalls n).next.1 = .done) (hnm : n ≤ m) :
    (l.afterCalls m).next.1 = .done := by
  induction hnm with
  | refl => exact h
  | step _ ih => exact done_next ih

theorem exists_done (l : Lexer) : ∃ n, (l.afterCalls n).next.1 = .done := by
  induction l using steps_induction with
  | done l h => exact ⟨0, h⟩
  | more l _ ih =>
    obtain ⟨n, hn⟩ := ih
    refine ⟨n + 1, ?_⟩
    rwa [← afterCalls_next]

/-- Whatever state a lexer is in, a call fails in two ways only, and takes a segment or a line from the
source unless it ends the run; after finitely many calls the run has ended, and it stays so. All that
segments are cut out by lies in the line and between characters: what the offsets give are the
segments of the line. -/
theorem next_progresses (l : Lexer) :
    (∀ e, l.next.1 = .failure e →
        (e = .undecodable ∧ .undecodable ∈ l.source.unread) ∨
          ∃ start, e = .located (.tooLong start l.settings.maxContinuationLines l.filename
            l.next.2.linesRead)) ∧
      (l.next.1 ≠ .done → l.next.2.source.Smaller l.source) ∧
      (∃ n, (l.afterCalls n).next.1 = .done) ∧
      (∀ n m, (l.afterCalls n).next.1 = .done → n ≤ m → (l.afterCalls m).next.1 = .done) ∧
      ∀ line lineNumber inDirective later r,
        Segment.cutOut? line lineNumber inDirective later r =
          some (Segment.ofLine line lineNumber inDirective r).1 := by
  refine ⟨fun e h ↦ ?_, smaller_next, exists_done l, fun n m ↦ done_afterCalls,
    Segment.cutOut?_eq_ofLine⟩
  rcases gather_of_failure h with ⟨he, rfl⟩ | ⟨-, rfl⟩
  · exact Or.inl ⟨rfl, Gathered.undecodable_mem_unread he⟩
  · exact Or.inr ⟨_, rfl⟩

end Lexer

end FreeForm
