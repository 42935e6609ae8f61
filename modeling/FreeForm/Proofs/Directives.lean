import FreeForm.Proofs.Composition
import FreeForm.Proofs.Lookahead

namespace FreeForm

open Text Region

namespace Marker

theorem startsDirective_append {t : Text} (h : startsDirective t) (rest : Text) :
    startsDirective (t ++ rest) := by
  rcases t with _ | ⟨c, _ | ⟨d, t⟩⟩
  · simp [startsDirective] at h
  · simp [startsDirective] at h
  · rw [← startsDirective_window] at h ⊢
    exact h

theorem isPlain_of_isBlank {c : Char} (h : isBlank c) : isPlain c ∧ c ≠ ';' := by
  have hmarks : (['#', '$', '@', '!', '\'', '"', ';'].all fun d ↦ !isBlank d) = true := by decide
  have hc : c ∉ ['#', '$', '@', '!', '\'', '"', ';'] := by
    intro hmem
    have hnot := List.all_eq_true.mp hmarks c hmem
    rw [h] at hnot
    cases hnot
  simp only [List.mem_cons, List.not_mem_nil, not_or] at hc
  simp [isPlain, isSigil, hc]

end Marker

namespace Statement

variable {blanks mark : Text} (hblanks : ∀ c ∈ blanks, isBlank c)
  (hmark : Marker.endsCode (Marker.window mark))

include hblanks hmark

/-- From a mark on that stands behind blanks only, all of the line is comment. -/
theorem ofText_blank_append : ofText (blanks ++ mark) .code = ([⟨blanks, false, mark⟩], .code) := by
  have hplain : ∀ c ∈ blanks, Marker.isPlain c := fun c hc ↦ (Marker.isPlain_of_isBlank (hblanks c hc)).1
  obtain ⟨hwalk, hsights⟩ := walk_sights_of_isPlain hplain mark
  have hhalts : HaltsAt .code false blanks mark := ⟨hwalk, Marker.opener?_of_endsCode hmark, hmark⟩
  have hcuts : ∀ a ∈ sights .code false blanks mark ++ mark.map fun c ↦ (c, false),
      cutsBehind a = false := by
    rw [hsights, List.forall_mem_append, List.forall_mem_map, List.forall_mem_map]
    refine ⟨fun c hc ↦ ?_, fun c _ ↦ rfl⟩
    simpa [cutsBehind] using (Marker.isPlain_of_isBlank (hblanks c hc)).2
  have hcode : Region.code.carried = .code := rfl
  rw [ofText_eq, hcode, hhalts.sights, hhalts.region, ofSights_of_forall hcuts, ofFinal_of_haltsAt hhalts]
  rfl

end Statement

namespace Segment

def directiveLine (blanks mark : Text) (lineNumber : Nat) : Segment :=
  ⟨⟨blanks, false, mark ++ ['\n']⟩, none, lineNumber, true⟩

/-- Lines that go on with a directive, the first of them number `n + 1`. -/
def directiveLines : (n : Nat) → List Text → List Segment
  | _, [] => []
  | n, d :: lines => directiveLine [] d (n + 1) :: directiveLines (n + 1) lines

variable {blanks mark d : Text} {n : Nat}

theorem source_directiveLine : (directiveLine blanks mark n).source = blanks ++ mark ++ ['\n'] := by
  simp [source, directiveLine, Statement.text, Sentinel.textOf]

theorem remark_directiveLine (hmark : '\n' ∉ mark) : (directiveLine blanks mark n).remark = mark := by
  rw [remark, directiveLine, dropEndWhile_append_singleton, if_pos (by decide), dropEndWhile_of_not_mem hmark]

theorem trimmed_directiveLine (hblanks : ∀ c ∈ blanks, isBlank c) :
    (directiveLine blanks mark n).trimmed = [] :=
  trim_eq_nil_iff.mpr (List.all_eq_true.mpr hblanks)

theorem join_directiveLine (hblanks : ∀ c ∈ blanks, isBlank c) :
    LogicalLine.join [] (directiveLine blanks mark n) = [] := by
  rw [LogicalLine.join, core, trimmed_directiveLine hblanks]
  simp [directiveLine, lineEnd, Sentinel.markerOf, isBlankText, dropEndsWhile, dropEndWhile]

theorem after_directiveLine (c : Continuation) (hblanks : ∀ c ∈ blanks, isBlank c)
    (h : c.directive ∨ Marker.startsDirective mark) :
    c.after (directiveLine blanks mark n) = ⟨c.statement, endsWith '&' (trim mark)⟩ := by
  have hstarts : (c.directive || Marker.startsDirective (Marker.window (mark ++ ['\n']))) = true := by
    rw [Bool.or_eq_true]
    refine h.imp_right fun hmark ↦ ?_
    rw [Marker.startsDirective_window]
    exact Marker.startsDirective_append hmark _
  have hcomment : (directiveLine blanks mark n).comment = mark ++ ['\n'] := rfl
  rw [Continuation.after, trimmed_directiveLine hblanks, hcomment, hstarts, trim_append_blank _ (by decide)]
  simp

theorem ofLine_mark (hblanks : ∀ c ∈ blanks, isBlank c) (hmark : Marker.startsDirective mark)
    (hd : (Sentinel.cut (blanks ++ mark)).1 = none) (n : Nat) :
    ofLine (blanks ++ mark ++ ['\n']) n false .code = ([directiveLine blanks mark n], .code) := by
  have hcut := Sentinel.cut_eq_of_fst (Sentinel.cut_fst_append_cons hd (t := []) (c := '\n') rfl (by decide))
  have hends : Marker.endsCode (Marker.window (mark ++ ['\n'])) := by
    rw [Marker.endsCode, Marker.startsDirective_window, Marker.startsDirective_append hmark]
    rfl
  rw [ofLine_code, hcut, endsWith_concat, List.append_assoc, Statement.ofText_blank_append hblanks hends,
    place_none]
  rfl

theorem ofLine_directiveLine (hd : (Sentinel.cut d).1 = none) (n : Nat) (r : Region) :
    ofLine (d ++ ['\n']) n true r = ([directiveLine [] d n], r) := by
  have hcut := Sentinel.cut_eq_of_fst (Sentinel.cut_fst_append_cons hd (t := []) (c := '\n') rfl (by decide))
  rw [ofLine_directive, hcut, place_none, endsWith_concat]
  rfl

theorem map_source_directiveLines (n : Nat) (lines : List Text) :
    (directiveLines n lines).map source = lines.map (· ++ ['\n']) := by
  induction lines generalizing n with
  | nil => rfl
  | cons d lines ih =>
    rw [directiveLines, List.map_cons, source_directiveLine, ih, List.map_cons, List.nil_append]

theorem map_remark_directiveLines (n : Nat) {lines : List Text} (h : ∀ d ∈ lines, '\n' ∉ d) :
    (directiveLines n lines).map remark = lines := by
  induction lines generalizing n with
  | nil => rfl
  | cons d lines ih =>
    obtain ⟨hd, hlines⟩ := List.forall_mem_cons.mp h
    rw [directiveLines, List.map_cons, remark_directiveLine hd, ih _ hlines]

theorem foldl_join_directiveLines (n : Nat) (lines : List Text) :
    (directiveLines n lines).foldl LogicalLine.join [] = [] := by
  induction lines generalizing n with
  | nil => rfl
  | cons d lines ih => rw [directiveLines, List.foldl_cons, join_directiveLine (by simp), ih]

end Segment

theorem Text.expandTabs_line (width : Nat) {d : Text} (hd : '\t' ∉ d) :
    expandTabs width (d ++ ['\n']) = d ++ ['\n'] :=
  expandTabs_of_not_mem width (by simpa using hd)

namespace Gathered

variable {tabWidth room : Nat} {r : Region} {last : Text} {middle : List Text}

theorem gather_directiveLine {d : Text} (htab : '\t' ∉ d) (hsentinel : (Sentinel.cut d).1 = none)
    (n : Nat) (unread : List PhysicalLine) :
    gather tabWidth room ⟨false, true⟩ r ⟨.text (d ++ ['\n']) :: unread, n, []⟩ =
      gather tabWidth room ⟨false, true⟩ r ⟨unread, n + 1, [Segment.directiveLine [] d (n + 1)]⟩ := by
  rw [gather_text, expandTabs_line tabWidth htab, Segment.ofLine_directiveLine hsentinel]

/-- The lines of a directive are gathered up to the first one that does not go on. -/
theorem gather_directiveLines (htab : ∀ d ∈ middle ++ [last], '\t' ∉ d)
    (hsentinel : ∀ d ∈ middle ++ [last], (Sentinel.cut d).1 = none)
    (hcontinued : ∀ d ∈ middle, endsWith '&' (trim d)) (hcomplete : endsWith '&' (trim last) = false)
    (hroom : (middle ++ [last]).length ≤ room) (n : Nat) (unread : List PhysicalLine) :
    gather tabWidth room ⟨false, true⟩ r
        ⟨(middle ++ [last]).map (fun d ↦ .text (d ++ ['\n'])) ++ unread, n, []⟩ =
      ⟨Segment.directiveLines n (middle ++ [last]), .complete,
        ⟨unread, n + (middle ++ [last]).length, []⟩⟩ := by
  have hafter (d : Text) (n : Nat) : Continuation.after ⟨false, true⟩ (Segment.directiveLine [] d n) =
      ⟨false, endsWith '&' (trim d)⟩ :=
    Segment.after_directiveLine _ (List.forall_mem_nil _) (.inl rfl)
  induction middle generalizing n room with
  | nil =>
    obtain ⟨room, rfl⟩ := Nat.exists_eq_add_of_le' (m := 1) hroom
    have hclosed :
        (Continuation.after ⟨false, true⟩ (Segment.directiveLine [] last (n + 1))).isOpen = false := by
      rw [hafter, hcomplete]
      rfl
    simp only [List.nil_append, List.map_cons, List.map_nil, List.cons_append]
    rw [gather_directiveLine (htab last (by simp)) (hsentinel last (by simp)),
      gather_complete _ _ _ _ _ _ hclosed]
    rfl
  | cons d middle ih =>
    obtain ⟨room, rfl⟩ := Nat.exists_eq_add_of_le' ((Nat.succ_pos _).trans_le hroom)
    rw [List.cons_append, List.forall_mem_cons] at htab hsentinel
    rw [List.forall_mem_cons] at hcontinued
    have hopen : (Continuation.after ⟨false, true⟩ (Segment.directiveLine [] d (n + 1))).isOpen := by
      rw [hafter, hcontinued.1]
      rfl
    rw [List.cons_append, List.map_cons, List.cons_append, gather_directiveLine htab.1 hsentinel.1,
      gather_more _ _ _ _ _ _ hopen, hafter, hcontinued.1,
      ih htab.2 hsentinel.2 hcontinued.2 (Nat.le_of_succ_le_succ hroom)]
    simp [push, Segment.directiveLines, Nat.add_comm, Nat.add_left_comm]

end Gathered

/-- Lines, each without its newline, of which the first one starts a directive behind blanks and the last one
ends it. -/
structure IsContinuedDirective (first : Text) (middle : List Text) (last : Text) : Prop where
  mark : Marker.startsDirective (trimStart first)
  bare : ∀ d ∈ first :: middle ++ [last], '\n' ∉ d ∧ '\t' ∉ d
  sentinel : ∀ d ∈ first :: middle ++ [last], (Sentinel.cut d).1 = none
  continued : ∀ d ∈ first :: middle, endsWith '&' (trim d)
  complete : endsWith '&' (trim last) = false

namespace IsContinuedDirective

variable {first last : Text} {middle : List Text} (h : IsContinuedDirective first middle last)

include h

theorem ofLine_first : Segment.ofLine (first ++ ['\n']) 1 false .code =
    ([Segment.directiveLine (first.takeWhile isBlank) (trimStart first) 1], .code) := by
  have hfirst : first.takeWhile isBlank ++ trimStart first = first := List.takeWhile_append_dropWhile
  have hline := Segment.ofLine_mark (List.all_eq_true.mp List.all_takeWhile) h.mark
    (by rw [hfirst]; exact h.sentinel first (by simp)) 1
  rwa [hfirst] at hline

theorem after_first : Continuation.closed.after
    (Segment.directiveLine (first.takeWhile isBlank) (trimStart first) 1) = ⟨false, true⟩ := by
  have htrim : trim (trimStart first) = trim first := by
    rw [trim, trim, dropEndsWhile, dropEndsWhile, trimStart, List.dropWhile_idempotent]
  rw [Segment.after_directiveLine _ (List.all_eq_true.mp List.all_takeWhile) (.inr h.mark), htrim,
    h.continued first (by simp)]
  rfl

theorem gather_eq {tabWidth room : Nat} (hroom : (first :: middle ++ [last]).length ≤ room)
    (unread : List PhysicalLine) :
    Gathered.gather tabWidth room .closed .code
        ⟨(first :: middle ++ [last]).map (fun d ↦ .text (d ++ ['\n'])) ++ unread, 0, []⟩ =
      ⟨Segment.directiveLine (first.takeWhile isBlank) (trimStart first) 1 ::
          Segment.directiveLines 1 (middle ++ [last]), .complete,
        ⟨unread, (first :: middle ++ [last]).length, []⟩⟩ := by
  obtain ⟨room, rfl⟩ := Nat.exists_eq_add_of_le' ((Nat.succ_pos _).trans_le hroom)
  have hbare := h.bare
  have hsentinel := h.sentinel
  rw [List.cons_append, List.forall_mem_cons] at hbare hsentinel
  have hopen : (Continuation.closed.after
      (Segment.directiveLine (first.takeWhile isBlank) (trimStart first) 1)).isOpen := by
    rw [h.after_first]
    rfl
  rw [List.cons_append, List.map_cons, List.cons_append, Gathered.gather_text,
    expandTabs_line tabWidth hbare.1.2]
  change Gathered.gather _ _ _ (Segment.ofLine _ _ false _).2 ⟨_, _, (Segment.ofLine _ _ false _).1⟩ = _
  rw [h.ofLine_first, Gathered.gather_more _ _ _ _ _ _ hopen, h.after_first,
    Gathered.gather_directiveLines (fun d hd ↦ (hbare.2 d hd).2) hsentinel.2
      (fun d hd ↦ h.continued d (by simp [hd])) h.complete (Nat.le_of_succ_le_succ hroom)]
  simp [Gathered.push, Nat.add_comm, Nat.add_left_comm]

theorem ofSegments_eq : LogicalLine.ofSegments
      (Segment.directiveLine (first.takeWhile isBlank) (trimStart first) 1 ::
        Segment.directiveLines 1 (middle ++ [last])) =
    ⟨[], trimStart first :: middle ++ [last], (first :: middle ++ [last]).map (· ++ ['\n']), 1⟩ := by
  have hblanks : ∀ c ∈ first.takeWhile isBlank, isBlank c := List.all_eq_true.mp List.all_takeWhile
  have hfirst : first.takeWhile isBlank ++ trimStart first = first := List.takeWhile_append_dropWhile
  have hbare := h.bare
  rw [List.cons_append, List.forall_mem_cons] at hbare
  have hmark : '\n' ∉ trimStart first := fun hmem ↦ hbare.1.1 ((List.dropWhile_suffix _).subset hmem)
  rw [LogicalLine.ofSegments, List.foldl_cons, Segment.join_directiveLine hblanks,
    Segment.foldl_join_directiveLines, List.map_cons, Segment.remark_directiveLine hmark,
    Segment.map_remark_directiveLines 1 fun d hd ↦ (hbare.2 d hd).1, List.map_cons,
    Segment.source_directiveLine, hfirst, Segment.map_source_directiveLines]
  rfl

end IsContinuedDirective

theorem PhysicalLine.ofText_lines {lines : List Text} (h : ∀ d ∈ lines, '\n' ∉ d) (t : Text) :
    ofText (lines.flatMap (· ++ ['\n']) ++ t) =
      lines.map (fun d ↦ .text (d ++ ['\n'])) ++ ofText t := by
  induction lines with
  | nil => rfl
  | cons d lines ih =>
    obtain ⟨hd, hlines⟩ := List.forall_mem_cons.mp h
    rw [List.flatMap_cons, List.append_assoc, List.append_assoc, List.singleton_append,
      ofText_append_cons hd, ih hlines, List.map_cons, List.cons_append]

namespace Lexer

/-- A directive that goes on over several lines is a logical line without code, with all its lines for comments
whatever they hold, and what follows is lexed as if it stood alone, but for the line numbers. -/
theorem steps_directive {first last : Text} {middle : List Text}
    (h : IsContinuedDirective first middle last) {s : Settings}
    (hlimit : (first :: middle ++ [last]).length ≤ s.maxContinuationLines) (t filename : Text) :
    ∃ later, (ofText ((first :: middle ++ [last]).flatMap (· ++ ['\n']) ++ t) s filename).steps =
        ⟨.line ⟨[], trimStart first :: middle ++ [last],
            (first :: middle ++ [last]).map (· ++ ['\n']), 1⟩,
          (first :: middle ++ [last]).length, false⟩ :: later ∧
      List.Forall₂ (Step.Later (first :: middle ++ [last]).length) (ofText t s filename).steps later := by
  refine ⟨((ofText t s filename).later (first :: middle ++ [last]).length).steps, ?_, steps_later _ _⟩
  have hlines : PhysicalLine.ofText ((first :: middle ++ [last]).flatMap (· ++ ['\n']) ++ t) =
      (first :: middle ++ [last]).map (fun d ↦ .text (d ++ ['\n'])) ++ PhysicalLine.ofText t :=
    PhysicalLine.ofText_lines (fun d hd ↦ (h.bare d hd).1) t
  have hnext : (ofText ((first :: middle ++ [last]).flatMap (· ++ ['\n']) ++ t) s filename).next =
      (.line ⟨[], trimStart first :: middle ++ [last], (first :: middle ++ [last]).map (· ++ ['\n']), 1⟩,
        (ofText t s filename).later (first :: middle ++ [last]).length) := by
    simp only [next, gather, ofText, ofLines, Source.ofLines, hlines, h.gather_eq hlimit, readingOf,
      h.ofSegments_eq]
    simp [later, Source.later]
  rw [steps_eq, step, hnext, if_neg (by simp)]
  simp [linesRead, later, Source.later, ofText, ofLines, Source.ofLines]

/-- There is just enough room. Neither the literal nor the span of the directive is open behind it, and what
follows breaks off in a literal of its own. -/
theorem steps_directive_quoted :
    IsContinuedDirective "  #:if x == 'a; &".toList ["!b\" $\x7bc &  ".toList, "&".toList] " & d".toList ∧
      ∃ later, (ofText "  #:if x == 'a; &\n!b\" $\x7bc &  \n&\n & d\ny = 'e; &\nf".toList ⟨8, 4, false⟩
            unnamed).steps =
          ⟨.line ⟨[],
            ["#:if x == 'a; &".toList, "!b\" $\x7bc &  ".toList, "&".toList, " & d".toList],
            ["  #:if x == 'a; &\n".toList, "!b\" $\x7bc &  \n".toList, "&\n".toList, " & d\n".toList],
            1⟩, 4, false⟩ :: later ∧
        List.Forall₂ (Step.Later 4) (ofText "y = 'e; &\nf".toList ⟨8, 4, false⟩ unnamed).steps later := by
  have h : IsContinuedDirective "  #:if x == 'a; &".toList ["!b\" $\x7bc &  ".toList, "&".toList]
      " & d".toList :=
    ⟨by decide, by decide, by decide, by decide, by decide⟩
  exact ⟨h, steps_directive h (s := ⟨8, 4, false⟩) (Nat.le_refl 4) "y = 'e; &\nf".toList unnamed⟩

end Lexer

end FreeForm
