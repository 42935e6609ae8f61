import FreeForm.Proofs.Joining
import FreeForm.Proofs.Progress
import FreeForm.Proofs.Simulation
import FreeForm.Proofs.Tabs

namespace FreeForm

open Text

namespace Text

theorem expandTabs_expandTabs (width width' : Nat) (t : Text) :
    expandTabs width' (expandTabs width t) = expandTabs width t :=
  expandTabs_of_not_mem width' (tab_not_mem_expandTabs width t)

theorem cutLines_expandTabs {width : Nat} (hw : 0 < width) (t : Text) :
    PhysicalLine.cutLines '\n' (expandTabs width t) =
      (PhysicalLine.cutLines '\n' t).map (expandTabs width) := by
  apply PhysicalLine.cutLines_flatMap_char
  · exact ⟨[], List.not_mem_nil, rfl⟩
  · intro c hc
    by_cases htab : c = '\t'
    · -- With a width of zero a line of tabs alone would vanish.
      rw [if_pos htab]
      refine ⟨by simpa using Nat.ne_of_gt hw, fun hmem ↦ ?_⟩
      cases List.eq_of_mem_replicate hmem
    · rw [if_neg htab]
      exact ⟨List.cons_ne_nil c [], by simpa using Ne.symm hc⟩

theorem tab_not_mem_ofNat (n : Nat) : '\t' ∉ ofNat n := by
  intro h
  cases Nat.isDigit_of_mem_toDigits (by decide) (by decide) h

end Text

theorem isRespelling_expandTabs (tabWidth tabWidth' : Nat) :
    IsRespelling tabWidth tabWidth' (expandTabs tabWidth) id (fun _ ↦ True) fun _ _ _ ↦ True where
  line := by
    intro c r t unread n _
    rw [expandTabs_expandTabs, List.map_id]
    exact ⟨rfl, trivial⟩
  undecodable _ := trivial
  segment _ := ⟨trivial, rfl, trivial⟩
  restart _ := trivial
  lineNumber _ := rfl

theorem Lexer.Step.eq_of_agrees {a b : Step} (h : a.Agrees Eq b) : a = b := by
  obtain ⟨hreading, hread, htruncated⟩ := h
  obtain ⟨reading, linesRead, truncated⟩ := a
  obtain ⟨reading', linesRead', truncated'⟩ := b
  obtain rfl : linesRead' = linesRead := hread
  obtain rfl : truncated' = truncated := htruncated
  cases hreading with
  | line h => rw [h]
  | failure | done => rfl

namespace Segment

variable {s : Segment} {c : Char}

theorem mem_source_of_mem_markerOf (h : c ∈ Sentinel.markerOf s.sentinel) : c ∈ s.source := by
  have htext : c ∈ Sentinel.textOf s.sentinel := by
    cases hs : s.sentinel with
    | none => simp [hs, Sentinel.markerOf] at h
    | some sentinel =>
      have hmarker : c ∈ sentinel.marker := by simpa [hs, Sentinel.markerOf] using h
      exact List.mem_append_right _ hmarker
  exact List.mem_append_left _ htext

theorem mem_source_of_mem_core (h : c ∈ s.core) : c ∈ s.source :=
  s.code_infix_source.subset (mem_of_mem_trim ((dropEndsWhile_infix_self _ _).subset h))

theorem mem_source_of_mem_remark (h : c ∈ s.remark) : c ∈ s.source :=
  s.comment_suffix_source.subset ((List.rdropWhile_prefix _ s.comment).subset h)

end Segment

namespace LogicalLine

variable {segments : List Segment} {joined : Text} {c : Char}

theorem mem_foldl_join (hc : c ≠ '\n') (h : c ∈ segments.foldl join joined) :
    c ∈ joined ∨ ∃ s ∈ segments, c ∈ s.source := by
  induction segments generalizing joined with
  | nil => exact Or.inl h
  | cons s segments ih =>
    rcases ih h with h | ⟨s', hs', h⟩
    · rw [join, List.append_assoc, List.mem_append, List.mem_append] at h
      rcases h with h | h | h
      · split at h
        · exact Or.inr ⟨s, List.mem_cons_self, Segment.mem_source_of_mem_markerOf h⟩
        · exact Or.inl ((List.rdropWhile_prefix _ joined).subset h)
      · exact Or.inr ⟨s, List.mem_cons_self, Segment.mem_source_of_mem_core h⟩
      · rcases s.lineEnd_eq with hend | hend
        · simp [hend] at h
        · exact absurd (by simpa [hend] using h) hc
    · exact Or.inr ⟨s', List.mem_cons_of_mem _ hs', h⟩

theorem exists_mem_source (hc : c ≠ '\n') {shown : Text}
    (hshown : shown ∈ (ofSegments segments).joined ::
      ((ofSegments segments).comments ++ (ofSegments segments).lines)) (h : c ∈ shown) :
    ∃ s ∈ segments, c ∈ s.source := by
  rcases List.mem_cons.mp hshown with rfl | hshown
  · exact (mem_foldl_join hc h).resolve_left List.not_mem_nil
  · rcases List.mem_append.mp hshown with hshown | hshown
    · obtain ⟨s, hs, rfl⟩ := List.mem_map.mp hshown
      exact ⟨s, hs, Segment.mem_source_of_mem_remark h⟩
    · obtain ⟨s, hs, rfl⟩ := List.mem_map.mp hshown
      exact ⟨s, hs, h⟩

end LogicalLine

namespace LexError

theorem tab_of_mem_report {e : LexError} (h : '\t' ∈ e.report) :
    '\t' ∈ e.filename ∨ '\t' ∈ e.message := by
  simp only [report, List.mem_append] at h
  rcases h with ((((h | h) | h) | h) | h) | h
  · exact Or.inl h
  · rcases List.mem_cons.mp h with h | h
    · cases h
    · exact absurd h (tab_not_mem_ofNat _)
  · exact absurd h (by decide)
  · cases hf : e.fault <;> rw [hf] at h <;> exact absurd h (by decide)
  · exact absurd h (by decide)
  · exact Or.inr h

theorem tab_not_mem_tooLong (start limit n : Nat) (filename : Text) :
    '\t' ∉ (tooLong start limit filename n).message := by
  simp only [tooLong, List.mem_append, not_or]
  refine ⟨⟨⟨⟨?_, tab_not_mem_ofNat _⟩, ?_⟩, tab_not_mem_ofNat _⟩, ?_⟩ <;> decide

end LexError

namespace Lexer

variable {t : Text} {s : Settings} {filename : Text} {step : Step}

theorem tab_not_mem_of_line {line : LogicalLine} (h : step ∈ (ofText t s filename).steps)
    (hline : step.reading = .line line) :
    ∀ shown ∈ line.joined :: (line.comments ++ line.lines), '\t' ∉ shown := by
  obtain ⟨n, rfl⟩ := exists_of_mem_steps h
  obtain ⟨-, rfl, -⟩ := segments_of_line hline
  intro shown hshown htab
  obtain ⟨segment, hs, htab⟩ := LogicalLine.exists_mem_source (by decide) hshown htab
  obtain ⟨line, k, inDirective, r, -, -, hs⟩ := isFrom_of_mem_gather t s filename n segment hs
  exact tab_not_mem_expandTabs _ _ ((Segment.source_infix_of_mem_ofLine hs).subset htab)

theorem tab_of_failure {e : ReadError} (h : step ∈ (ofText t s filename).steps)
    (he : step.reading = .failure e) (htab : '\t' ∈ e.report) : '\t' ∈ filename := by
  obtain ⟨n, rfl⟩ := exists_of_mem_steps h
  rcases gather_of_failure he with ⟨-, rfl⟩ | ⟨-, rfl⟩
  · exact absurd htab (by decide)
  · rw [filename_afterCalls] at htab
    exact (LexError.tab_of_mem_report htab).resolve_right (LexError.tab_not_mem_tooLong _ _ _ _)

theorem ofText_expandTabs (hw : 0 < s.tabWidth) (width : Nat) :
    ofText (expandTabs s.tabWidth t) { s with tabWidth := width } filename =
      (ofText t s filename).respell width (expandTabs s.tabWidth) id :=
  ofText_respell (cutLines_expandTabs hw t) id s filename width

/-- Tabs are only a spelling of spaces: whatever the width of tabs is then, a text in which each of them
has been replaced by spaces is lexed in the same way, step by step, and nothing that either run shows
has a tab, unless the name of the source has one. -/
theorem steps_expandTabs (t : Text) (s : Settings) (filename : Text) (width : Nat)
    (hw : 0 < s.tabWidth) :
    (ofBytes (Text.encode t) s filename).steps =
        (ofBytes (Text.encode (expandTabs s.tabWidth t)) { s with tabWidth := width } filename).steps ∧
      ∀ step ∈ (ofBytes (Text.encode t) s filename).steps,
        (∀ line, step.reading = .line line →
            ∀ shown ∈ line.joined :: (line.comments ++ line.lines), '\t' ∉ shown) ∧
          ∀ e, step.reading = .failure e → '\t' ∈ e.report → '\t' ∈ filename := by
  rw [ofBytes_encode, ofBytes_encode, ofText_expandTabs hw]
  refine ⟨?_, fun step hstep ↦ ⟨fun line ↦ tab_not_mem_of_line hstep, fun e ↦ tab_of_failure hstep⟩⟩
  have hagrees := (isRespelling_expandTabs s.tabWidth width).steps (T := Eq)
    (fun segments _ ↦ by rw [List.map_id]) (l := ofText t s filename) rfl trivial
  rw [← List.forall₂_eq_eq_eq]
  exact hagrees.imp fun a b ↦ Step.eq_of_agrees

/-- Tabs in code, in a literal that goes on, behind a sentinel and in a comment, and a last line that
holds a tab only. -/
def tabbedText : Text :=
  "\tx = 'a\t&\n\t&;b'\t! c\t\n!$\ty;\tz &\n\t#\tif &\n\t".toList

theorem steps_expandTabs_tabbedText :
    0 < (⟨2, 3, false⟩ : Settings).tabWidth ∧
      (ofBytes (Text.encode tabbedText) ⟨2, 3, false⟩ unnamed).steps =
        (ofBytes (Text.encode "  x = 'a  &\n  &;b'  ! c  \n!$  y;  z &\n  #  if &\n  ".toList)
          ⟨0, 3, false⟩ unnamed).steps ∧
      ∀ step ∈ (ofBytes (Text.encode tabbedText) ⟨2, 3, false⟩ unnamed).steps,
        ∀ line, step.reading = .line line → '\t' ∉ line.joined := by
  obtain ⟨hsteps, htabs⟩ := steps_expandTabs tabbedText ⟨2, 3, false⟩ unnamed 0 (by decide)
  exact ⟨by decide, hsteps, fun step hstep line hline ↦
    (htabs step hstep).1 line hline _ List.mem_cons_self⟩

end Lexer

end FreeForm
