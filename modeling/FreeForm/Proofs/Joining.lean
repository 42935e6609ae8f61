import FreeForm.Proofs.Edges
import FreeForm.Proofs.Origin

namespace FreeForm

open Text

namespace Text

/-- At most one newline, and nothing behind it. -/
def IsLine (t : Text) : Prop :=
  '\n' ∉ t.dropLast

theorem IsLine.exists_eq {t : Text} (h : IsLine t) :
    ∃ body, '\n' ∉ body ∧ (t = body ∨ t = body ++ ['\n']) := by
  rcases List.eq_nil_or_concat t with rfl | ⟨body, c, rfl⟩
  · exact ⟨[], List.not_mem_nil, Or.inl rfl⟩
  · rw [List.concat_eq_append] at h ⊢
    rw [IsLine, List.dropLast_concat] at h
    by_cases hc : c = '\n'
    · exact ⟨body, h, Or.inr (by rw [hc])⟩
    · refine ⟨body ++ [c], ?_, Or.inl rfl⟩
      simp [h, Ne.symm hc]

theorem IsLine.of_infix {s t : Text} (ht : IsLine t) (h : s <:+: t) : IsLine s := by
  obtain ⟨front, back, rfl⟩ := h
  intro hs
  apply ht
  rcases List.eq_nil_or_concat back with rfl | ⟨back, c, rfl⟩
  · have hne : s ≠ [] := by
      rintro rfl
      cases hs
    rw [List.append_nil, List.dropLast_append_of_ne_nil hne]
    exact List.mem_append_right _ hs
  · rw [List.concat_eq_append, ← List.append_assoc, List.dropLast_concat]
    exact List.mem_append_left _ (List.mem_append_right _ (List.dropLast_subset _ hs))

theorem IsLine.newline_not_mem_trim {t : Text} (h : IsLine t) : '\n' ∉ trim t := by
  have htrim : IsLine (trim t) := h.of_infix (dropEndsWhile_infix_self isBlank t)
  obtain ⟨body, hbody, heq | heq⟩ := htrim.exists_eq
  · rwa [heq]
  · have hlast : '\n' ∈ (trim t).getLast? := by
      rw [heq, List.getLast?_concat]
      rfl
    cases isBlank_of_getLast_trim hlast

theorem newline_not_mem_expandTabs (width : Nat) {t : Text} (h : '\n' ∉ t) :
    '\n' ∉ expandTabs width t := by
  intro hmem
  obtain ⟨c, hc, hmem⟩ := List.mem_flatMap.mp hmem
  split at hmem
  · cases List.eq_of_mem_replicate hmem
  · exact h (List.mem_singleton.mp hmem ▸ hc)

theorem isLine_expandTabs {t : Text} (h : IsLine t) (width : Nat) :
    IsLine (expandTabs width t) ∧ endsWith '\n' (expandTabs width t) = endsWith '\n' t := by
  obtain ⟨body, hbody, rfl | rfl⟩ := h.exists_eq
  · have hexpand := newline_not_mem_expandTabs width hbody
    refine ⟨fun hmem ↦ hexpand (List.dropLast_subset _ hmem), ?_⟩
    rw [not_endsWith_of_not_mem hexpand, not_endsWith_of_not_mem hbody]
  · have hnewline : expandTabs width ['\n'] = ['\n'] := rfl
    rw [expandTabs_append, hnewline, IsLine, List.dropLast_concat, endsWith_concat, endsWith_concat]
    exact ⟨newline_not_mem_expandTabs width hbody, rfl⟩

end Text

namespace Sentinel

theorem newline_not_mem_cutName (t : Text) : '\n' ∉ (cutName t).1 := by
  unfold cutName
  split
  · next a b c _ =>
    split
    · next h =>
      intro hmem
      simp only [Bool.and_eq_true, decide_eq_true_eq] at h
      simp only [List.mem_cons, List.not_mem_nil, or_false] at hmem
      rcases hmem with rfl | rfl | rfl
      · exact absurd h.1.1 (by decide)
      · exact absurd h.1.2 (by decide)
      · exact absurd h.2 (by decide)
    · exact List.not_mem_nil
  · exact List.not_mem_nil

theorem newline_not_mem_markerOf_cut (line : Text) : '\n' ∉ markerOf (cut line).1 := by
  unfold cut
  split
  · next t _ =>
    have hgap : '\n' ∉ (cutName t).2.takeWhile (· = ' ') := by
      intro hmem
      simpa using List.mem_takeWhile_imp hmem
    simp [markerOf, marker, newline_not_mem_cutName, hgap]
  · exact List.not_mem_nil

end Sentinel

namespace Segment

/-- What a segment adds to joined code that is blank so far. -/
def lead (s : Segment) : Text :=
  Sentinel.markerOf s.sentinel ++ s.core

variable {s : Segment}

theorem source_infix_of_mem_ofLine {line : Text} {lineNumber : Nat} {inDirective : Bool} {r : Region}
    (h : s ∈ (ofLine line lineNumber inDirective r).1) : s.source <:+: line := by
  rw [← flatMap_source_ofLine line lineNumber inDirective r, List.flatMap_def]
  exact List.infix_of_mem_flatten (List.mem_map_of_mem h)

theorem code_infix_source (s : Segment) : s.code <:+: s.source :=
  ⟨Sentinel.textOf s.sentinel, (if s.separated then [';'] else []) ++ s.comment, by
    simp [source, Statement.text]⟩

theorem comment_suffix_source (s : Segment) : s.comment <:+ s.source :=
  ⟨Sentinel.textOf s.sentinel ++ s.code ++ (if s.separated then [';'] else []), by
    simp [source, Statement.text]⟩

theorem newline_not_mem_core (h : IsLine s.code) : '\n' ∉ s.core := fun hmem ↦
  h.newline_not_mem_trim ((dropEndsWhile_infix_self _ _).subset hmem)

theorem IsFrom.isLine_source {texts : List Text} {tabWidth : Nat} (h : s.IsFrom texts tabWidth)
    (htexts : ∀ t ∈ texts, IsLine t) : IsLine s.source := by
  obtain ⟨t, n, inDirective, r, ht, -, hs⟩ := h
  have hline := (isLine_expandTabs (htexts t (List.mem_of_getElem? ht)) tabWidth).1
  exact hline.of_infix (source_infix_of_mem_ofLine hs)

theorem IsFrom.newline {texts : List Text} {tabWidth : Nat} (h : s.IsFrom texts tabWidth)
    (htexts : ∀ t ∈ texts, IsLine t) :
    ∃ t, texts[s.lineNumber - 1]? = some t ∧ s.newline = endsWith '\n' t ∧ '\n' ∉ s.core ∧
      '\n' ∉ Sentinel.markerOf s.sentinel := by
  have hsource := h.isLine_source htexts
  obtain ⟨t, n, inDirective, r, ht, hn, hs⟩ := h
  obtain ⟨-, hends⟩ := isLine_expandTabs (htexts t (List.mem_of_getElem? ht)) tabWidth
  obtain ⟨hsentinel, -, hnewline⟩ := of_mem_ofLine hs
  refine ⟨t, by rwa [hn, Nat.add_sub_cancel], hnewline.trans hends, ?_, ?_⟩
  · exact newline_not_mem_core (hsource.of_infix s.code_infix_source)
  · rcases hsentinel with hsentinel | hsentinel
    · rw [hsentinel]
      exact Sentinel.newline_not_mem_markerOf_cut _
    · rw [hsentinel]
      exact List.not_mem_nil

theorem lineEnd_eq (s : Segment) : s.lineEnd = [] ∨ s.lineEnd = ['\n'] := by
  rw [lineEnd]
  split
  · exact Or.inr rfl
  · exact Or.inl rfl

end Segment

namespace LogicalLine

variable {s : Segment} {joined code ending : Text}

theorem join_of_isBlankText (h : isBlankText joined) : join joined s = s.lead ++ s.lineEnd := by
  rw [join, if_pos h, Segment.lead]

theorem foldl_join_append (segments : List Segment) (hsegments : ∀ s ∈ segments, '\n' ∉ s.core)
    (hblank : isBlankText code = false) (hcode : '\n' ∉ code)
    (hending : ending = [] ∨ ending = ['\n']) :
    segments.foldl join (code ++ ending) = code ++ segments.flatMap Segment.core ++
      (segments.getLast?.map Segment.lineEnd).getD ending := by
  -- What is joined is kept as `code` and a line end, since only the line end is ever taken back.
  induction segments generalizing code ending with
  | nil => simp
  | cons s segments ih =>
    obtain ⟨hs, hrest⟩ := List.forall_mem_cons.mp hsegments
    have hblank' : isBlankText (code ++ s.core) = false := by
      rw [isBlankText, List.all_append, Bool.and_eq_false_iff]
      exact Or.inl hblank
    have hcode' : '\n' ∉ code ++ s.core := by simp [hcode, hs]
    have hlast : ((s :: segments).getLast?.map Segment.lineEnd).getD ending =
        (segments.getLast?.map Segment.lineEnd).getD s.lineEnd := by
      rw [List.getLast?_cons]
      cases segments.getLast? <;> rfl
    rw [List.foldl_cons, join_append hblank hcode hending s, ih hrest hblank' hcode' s.lineEnd_eq,
      hlast, List.flatMap_cons, List.append_assoc code]

theorem foldl_join {skipped rest : List Segment} {first : Segment} (hjoined : isBlankText joined)
    (hskipped : ∀ s ∈ skipped, isBlankText s.lead) (hfirst : isBlankText first.lead → rest = [])
    (hrest : ∀ s ∈ rest, '\n' ∉ s.core) (hlead : '\n' ∉ first.lead) :
    (skipped ++ first :: rest).foldl join joined = first.lead ++ rest.flatMap Segment.core ++
      (rest.getLast?.map Segment.lineEnd).getD first.lineEnd := by
  induction skipped generalizing joined with
  | nil =>
    rw [List.nil_append, List.foldl_cons, join_of_isBlankText hjoined]
    by_cases hblank : isBlankText first.lead
    · simp [hfirst hblank]
    · exact foldl_join_append rest hrest (by simpa using hblank) hlead first.lineEnd_eq
  | cons s skipped ih =>
    obtain ⟨hs, hskipped⟩ := List.forall_mem_cons.mp hskipped
    have hline : isBlankText (s.lead ++ s.lineEnd) := by
      rw [isBlankText, List.all_append, Bool.and_eq_true]
      refine ⟨hs, ?_⟩
      rcases s.lineEnd_eq with h | h <;> rw [h] <;> rfl
    rw [List.cons_append, List.foldl_cons, join_of_isBlankText hjoined]
    exact ih hline hskipped

theorem exists_first {segments : List Segment} (h : segments ≠ []) :
    ∃ skipped first rest, segments = skipped ++ first :: rest ∧
      (∀ s ∈ skipped, isBlankText s.lead) ∧ (isBlankText first.lead → rest = []) := by
  induction segments with
  | nil => exact absurd rfl h
  | cons s segments ih =>
    by_cases hs : isBlankText s.lead ∧ segments ≠ []
    · obtain ⟨skipped, first, rest, rfl, hskipped, hfirst⟩ := ih hs.2
      exact ⟨s :: skipped, first, rest, rfl, List.forall_mem_cons.mpr ⟨hs.1, hskipped⟩, hfirst⟩
    · refine ⟨[], s, segments, rfl, by simp, fun hblank ↦ ?_⟩
      by_contra hne
      exact hs ⟨hblank, hne⟩

/-- Segments without newlines join to their code, with the line end of the last one. -/
theorem exists_joined {segments : List Segment} (hne : segments ≠ [])
    (hsegments : ∀ s ∈ segments, '\n' ∉ s.core ∧ '\n' ∉ Sentinel.markerOf s.sentinel) :
    ∃ skipped rest first last, segments = skipped ++ first :: rest ∧
      (∀ s ∈ skipped, isBlankText s.lead) ∧ (isBlankText first.lead → rest = []) ∧
      (first :: rest).getLast? = some last ∧
      '\n' ∉ Sentinel.markerOf first.sentinel ++ (first :: rest).flatMap Segment.core ∧
      (ofSegments segments).joined =
        Sentinel.markerOf first.sentinel ++ (first :: rest).flatMap Segment.core ++ last.lineEnd := by
  obtain ⟨skipped, first, rest, rfl, hskipped, hfirst⟩ := exists_first hne
  have hcore : ∀ s ∈ first :: rest, '\n' ∉ s.core := fun s hs ↦
    (hsegments s (List.mem_append_right _ hs)).1
  have hmarker := (hsegments first (List.mem_append_right _ List.mem_cons_self)).2
  have hlead : '\n' ∉ first.lead := fun hmem ↦
    (List.mem_append.mp hmem).elim hmarker (hcore first List.mem_cons_self)
  have hcode : '\n' ∉ (first :: rest).flatMap Segment.core := by
    intro hmem
    obtain ⟨s, hs, hmem⟩ := List.mem_flatMap.mp hmem
    exact hcore s hs hmem
  have hlineEnd : (rest.getLast?.map Segment.lineEnd).getD first.lineEnd =
      (rest.getLast?.getD first).lineEnd := by
    cases rest.getLast? <;> rfl
  have hblank : isBlankText [] := rfl
  have hjoined := foldl_join hblank hskipped hfirst
    (fun s hs ↦ hcore s (List.mem_cons_of_mem _ hs)) hlead
  rw [hlineEnd] at hjoined
  refine ⟨skipped, rest, first, _, rfl, hskipped, hfirst, List.getLast?_cons, ?_, ?_⟩
  · exact fun hmem ↦ (List.mem_append.mp hmem).elim hmarker hcode
  · simpa [ofSegments, Segment.lead] using hjoined

end LogicalLine

namespace Lexer

theorem newline_of_mem_gather (t : Text) (s : Settings) (filename : Text) (n : Nat) :
    ∀ segment ∈ ((ofText t s filename).afterCalls n).gather.segments,
      ∃ physical, (PhysicalLine.cutLines '\n' t)[segment.lineNumber - 1]? = some physical ∧
        segment.newline = endsWith '\n' physical ∧ '\n' ∉ segment.core ∧
        '\n' ∉ Sentinel.markerOf segment.sentinel := by
  intro segment hs
  apply (isFrom_of_mem_gather t s filename n segment hs).newline
  intro physical hphysical
  exact PhysicalLine.not_mem_dropLast_of_mem_cutLines hphysical

/-- Joined code is the code of the segments, without the blanks and continuation marks around it, from
the first segment on that has some or bears a sentinel, whose marker stands in front; it ends with a
newline if the last physical line does and the last segment has no comment. -/
theorem joined_eq (t : Text) (s : Settings) (filename : Text) (n : Nat) {line : LogicalLine}
    (h : ((ofText t s filename).afterCalls n).next.1 = .line line) :
    ∃ (skipped rest : List Segment) (first last : Segment) (physical : Text),
      ((ofText t s filename).afterCalls n).gather.segments = skipped ++ first :: rest ∧
        line.lines = (skipped ++ first :: rest).map Segment.source ∧
        (∀ s ∈ skipped, isBlankText (Sentinel.markerOf s.sentinel ++ s.core)) ∧
        (isBlankText (Sentinel.markerOf first.sentinel ++ first.core) → rest = []) ∧
        (first :: rest).getLast? = some last ∧
        (PhysicalLine.cutLines '\n' t)[last.lineNumber - 1]? = some physical ∧
        '\n' ∉ Sentinel.markerOf first.sentinel ++ (first :: rest).flatMap Segment.core ∧
        line.joined = Sentinel.markerOf first.sentinel ++ (first :: rest).flatMap Segment.core ++
          if endsWith '\n' physical && last.comment.isEmpty then ['\n'] else [] := by
  obtain ⟨hne, rfl, -⟩ := segments_of_line h
  have hnewline := newline_of_mem_gather t s filename n
  have hsegments : ∀ segment ∈ ((ofText t s filename).afterCalls n).gather.segments,
      '\n' ∉ segment.core ∧ '\n' ∉ Sentinel.markerOf segment.sentinel := by
    intro segment hs
    obtain ⟨-, -, -, hnot⟩ := hnewline segment hs
    exact hnot
  obtain ⟨skipped, rest, first, last, hsplit, hskipped, hfirst, hlast, hnot, hjoined⟩ :=
    LogicalLine.exists_joined hne hsegments
  have hmem : last ∈ ((ofText t s filename).afterCalls n).gather.segments := by
    rw [hsplit]
    exact List.mem_append_right _ (List.mem_of_getLast? hlast)
  obtain ⟨physical, hphysical, hends, -⟩ := hnewline last hmem
  rw [Segment.lineEnd, hends] at hjoined
  refine ⟨skipped, rest, first, last, physical, hsplit, ?_, hskipped, hfirst, hlast, hphysical, hnot,
    hjoined⟩
  rw [← hsplit]
  rfl

/-- A statement before, a blank segment, a comment, a sentinel, a literal carried over, an empty line,
and a semicolon that closes nothing. -/
def mixedText : Text :=
  "p;  &\n ! c\n!$omp  a = 'x&\n & ; b' &\n\n!$ &; c".toList

theorem joined_eq_mixedText :
    ((ofText mixedText ⟨8, 100, false⟩ unnamed).afterCalls 1).next.1 =
        .line ⟨"!$omp  a = 'x ; b' c".toList, [[], "! c".toList, [], [], [], [], []],
          ["  &\n".toList, " ! c\n".toList, "!$omp  a = 'x&\n".toList, " & ; b' &\n".toList,
            ['\n'], "!$ &;".toList, " c".toList], 1⟩ ∧
      ∃ (skipped rest : List Segment) (first last : Segment) (physical : Text),
        ((ofText mixedText ⟨8, 100, false⟩ unnamed).afterCalls 1).gather.segments =
            skipped ++ first :: rest ∧
          (∀ s ∈ skipped, isBlankText (Sentinel.markerOf s.sentinel ++ s.core)) ∧
          (isBlankText (Sentinel.markerOf first.sentinel ++ first.core) → rest = []) ∧
          (first :: rest).getLast? = some last ∧
          (PhysicalLine.cutLines '\n' mixedText)[last.lineNumber - 1]? = some physical ∧
          "!$omp  a = 'x ; b' c".toList =
            Sentinel.markerOf first.sentinel ++ (first :: rest).flatMap Segment.core ++
              if endsWith '\n' physical && last.comment.isEmpty then ['\n'] else [] := by
  have h : ((ofText mixedText ⟨8, 100, false⟩ unnamed).afterCalls 1).next.1 =
      .line ⟨"!$omp  a = 'x ; b' c".toList, [[], "! c".toList, [], [], [], [], []],
        ["  &\n".toList, " ! c\n".toList, "!$omp  a = 'x&\n".toList, " & ; b' &\n".toList,
          ['\n'], "!$ &;".toList, " c".toList], 1⟩ := rfl
  obtain ⟨skipped, rest, first, last, physical, hsplit, -, hskipped, hfirst, hlast, hphysical, -,
    hjoined⟩ := joined_eq _ _ _ _ h
  exact ⟨h, skipped, rest, first, last, physical, hsplit, hskipped, hfirst, hlast, hphysical, hjoined⟩

end Lexer

end FreeForm
