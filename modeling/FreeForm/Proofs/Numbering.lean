import FreeForm.Proofs.Joining
import FreeForm.Proofs.Lossless
import FreeForm.Proofs.Progress

namespace FreeForm

namespace Text

theorem count_newline_of_endsWith {t : Text} (h : IsLine t) (hends : endsWith '\n' t) :
    t.count '\n' = 1 := by
  obtain ⟨body, hbody, rfl | rfl⟩ := h.exists_eq
  · rw [not_endsWith_of_not_mem hbody] at hends
    cases hends
  · rw [List.count_append, List.count_eq_zero_of_not_mem hbody]
    rfl

end Text

open Text

namespace PhysicalLine

theorem endsWith_of_cutLines {t line : Text} {front rest : List Text}
    (h : cutLines '\n' t = front ++ line :: rest) (hrest : rest ≠ []) : endsWith '\n' line := by
  induction t using cut_induction (· == '\n') generalizing front with
  | whole t ht =>
    exfalso
    by_cases hne : t = []
    · simp [hne] at h
    · have hlength := congrArg List.length h
      have hpos := List.length_pos_of_ne_nil hrest
      rw [cutLines_of_forall ht hne] at hlength
      simp only [List.length_append, List.length_cons, List.length_nil] at hlength
      omega
  | cut t a tail ht ha ih =>
    obtain rfl := eq_of_beq ha
    rw [cutLines_append_cons ht] at h
    rcases front with _ | ⟨first, front⟩
    · obtain ⟨rfl, -⟩ := List.cons.inj h
      exact endsWith_concat t '\n'
    · exact ih (List.cons.inj h).2

theorem isLine_of_suffix {t line : Text} {unread : List PhysicalLine}
    (h : .text line :: unread <:+ ofText t) : IsLine line := by
  have hmem : .text line ∈ ofText t := h.subset List.mem_cons_self
  obtain ⟨line', hline', heq⟩ := List.mem_map.mp hmem
  obtain rfl := PhysicalLine.text.inj heq
  exact not_mem_dropLast_of_mem_cutLines hline'

theorem exists_cutLines_of_suffix {t line : Text} {unread : List PhysicalLine}
    (h : .text line :: unread <:+ ofText t) :
    ∃ front rest, cutLines '\n' t = front ++ line :: rest ∧ rest.map text = unread := by
  obtain ⟨front, hfront⟩ := h
  obtain ⟨texts, rest, hcut, -, hrest⟩ := List.map_eq_append_iff.mp hfront.symm
  obtain ⟨line', rest, rfl, hline', hunread⟩ := List.map_eq_cons_iff.mp hrest
  obtain rfl := PhysicalLine.text.inj hline'
  exact ⟨texts, rest, hcut, hunread⟩

theorem endsWith_of_suffix {t line : Text} {unread : List PhysicalLine}
    (h : .text line :: unread <:+ ofText t) (hunread : unread ≠ []) : endsWith '\n' line := by
  obtain ⟨front, rest, hcut, rfl⟩ := exists_cutLines_of_suffix h
  exact endsWith_of_cutLines hcut fun hrest ↦ hunread (by rw [hrest]; rfl)

theorem count_newline_of_suffix {t line : Text} {unread : List PhysicalLine} (tabWidth : Nat)
    (h : .text line :: unread <:+ ofText t) (hunread : unread ≠ []) :
    (expandTabs tabWidth line).count '\n' = 1 := by
  obtain ⟨hline, hends⟩ := isLine_expandTabs (isLine_of_suffix h) tabWidth
  exact count_newline_of_endsWith hline (hends.trans (endsWith_of_suffix h hunread))

end PhysicalLine

theorem Statement.text_ne_nil_of_mem_ofSights {sights : List Sight} (h : sights ≠ []) :
    ∀ s ∈ ofSights sights, s.text ≠ [] := by
  induction sights using cut_induction cutsBehind with
  | whole sights hs =>
    rw [ofSights_of_forall hs]
    simpa [text_ofFinal] using h
  | cut piece a rest hp ha ih =>
    obtain ⟨c, shown⟩ := a
    obtain ⟨rfl, rfl⟩ : shown = true ∧ c = ';' := by simpa [cutsBehind] using ha
    rw [ofSights_append_cons hp]
    refine List.forall_mem_cons.mpr ⟨by simp [text], ?_⟩
    by_cases hrest : rest = []
    · simp [hrest]
    · simpa [hrest] using ih hrest

namespace Segment

/-- Each segment bears the number of the line on which it starts, if `k` newlines come before. -/
def AreNumbered : (k : Nat) → List Segment → Prop
  | _, [] => True
  | k, s :: segments => s.lineNumber = k + 1 ∧ AreNumbered (k + s.source.count '\n') segments

theorem AreNumbered.startOf {segments : List Segment} {k : Nat} (h : AreNumbered k segments)
    (hne : segments ≠ []) : LogicalLine.startOf segments = k + 1 := by
  obtain ⟨s, rest, rfl⟩ := List.exists_cons_of_ne_nil hne
  exact h.1

theorem AreNumbered.lineNumber_last {segments : List Segment} {last : Segment} {k : Nat}
    (h : AreNumbered k (segments ++ [last])) :
    last.lineNumber = k + (segments.flatMap source).count '\n' + 1 := by
  induction segments generalizing k with
  | nil => exact h.1
  | cons s segments ih =>
    rw [List.flatMap_cons, List.count_append, ih h.2]
    omega

variable {line : Text} {lineNumber : Nat} {inDirective : Bool} {r : Region}

theorem text_ne_nil_of_mem_ofLine (h : 1 < (ofLine line lineNumber inDirective r).1.length) :
    ∀ s ∈ (ofLine line lineNumber inDirective r).1, s.text ≠ [] := by
  cases inDirective with
  | true => simp [ofLine_directive, place] at h
  | false =>
    rw [ofLine_code, Statement.ofText_eq] at h ⊢
    have hsights : Region.sights r.carried false (Sentinel.cut line).2 [] ≠ [] := by
      intro hnil
      rw [hnil, Statement.ofSights_of_forall (by simp)] at h
      simp [place] at h
    intro s hs
    exact Statement.text_ne_nil_of_mem_ofSights hsights _ (of_mem_place hs).1

theorem newline_not_mem_dropLast_ofLine (h : IsLine line) :
    '\n' ∉ (ofLine line lineNumber inDirective r).1.dropLast.flatMap source := by
  have hsource := flatMap_source_ofLine line lineNumber inDirective r
  have htext := @text_ne_nil_of_mem_ofLine line lineNumber inDirective r
  generalize (ofLine line lineNumber inDirective r).1 = segments at hsource htext
  rcases List.eq_nil_or_concat segments with rfl | ⟨front, last, rfl⟩
  · exact List.not_mem_nil
  · rw [List.concat_eq_append] at hsource htext ⊢
    rw [List.dropLast_concat]
    by_cases hfront : front = []
    · simp [hfront]
    · have hpos := List.length_pos_of_ne_nil hfront
      have hlast : last.source ≠ [] := by
        have hne := htext (by simp; omega) last (by simp)
        simp [source, hne]
      rw [← hsource, List.flatMap_append, List.flatMap_singleton, IsLine,
        List.dropLast_append_of_ne_nil hlast] at h
      exact fun hmem ↦ h (List.mem_append_left _ hmem)

end Segment

/-- `k` newlines of `t` have been handed out, and the segments that wait belong to the line behind
them, which is the last one read. -/
structure Source.Numbered (t : Text) (k : Nat) (source : Source) : Prop where
  unread : source.unread <:+ PhysicalLine.ofText t
  lineNumber : ∀ s ∈ source.queue, s.lineNumber = k + 1
  linesRead : source.queue ≠ [] → source.linesRead = k + 1
  newline : '\n' ∉ source.queue.dropLast.flatMap Segment.source
  boundary : source.unread ≠ [] →
    k + (source.queue.flatMap Segment.source).count '\n' = source.linesRead

namespace Source.Numbered

variable {t line : Text} {k n : Nat} {unread : List PhysicalLine} {s : Segment}
  {queue : List Segment}

theorem read {tabWidth : Nat} (h : Numbered t k ⟨.text line :: unread, n, []⟩)
    (inDirective : Bool) (r : Region) :
    Numbered t k
      ⟨unread, n + 1, (Segment.ofLine (expandTabs tabWidth line) (n + 1) inDirective r).1⟩ := by
  have hk : k = n := h.boundary (List.cons_ne_nil _ _)
  have hline := PhysicalLine.isLine_of_suffix h.unread
  refine ⟨(List.suffix_cons _ _).trans h.unread, ?_, ?_, ?_, ?_⟩
  · intro s hs
    rw [(Segment.of_mem_ofLine hs).2.1, hk]
  · intro _
    rw [hk]
  · exact Segment.newline_not_mem_dropLast_ofLine (isLine_expandTabs hline tabWidth).1
  · intro hunread
    rw [Segment.flatMap_source_ofLine, PhysicalLine.count_newline_of_suffix tabWidth h.unread hunread,
      hk]

theorem tail (h : Numbered t k ⟨unread, n, s :: queue⟩) :
    s.lineNumber = k + 1 ∧ n = k + 1 ∧
      Numbered t (k + s.source.count '\n') ⟨unread, n, queue⟩ := by
  have hn : n = k + 1 := h.linesRead (List.cons_ne_nil _ _)
  have hboundary := h.boundary
  rw [List.flatMap_cons, List.count_append, ← Nat.add_assoc] at hboundary
  -- Only the last segment of a line holds its newline: what waits behind `s` is on the same line.
  have hnumbers (hqueue : queue ≠ []) : s.source.count '\n' = 0 ∧
      '\n' ∉ queue.dropLast.flatMap Segment.source := by
    have hnewline := h.newline
    rw [List.dropLast_cons_of_ne_nil hqueue, List.flatMap_cons, List.mem_append, not_or] at hnewline
    exact ⟨List.count_eq_zero_of_not_mem hnewline.1, hnewline.2⟩
  refine ⟨h.lineNumber s List.mem_cons_self, hn, h.unread, ?_, ?_, ?_, hboundary⟩
  · intro s' hs
    rw [(hnumbers (List.ne_nil_of_mem hs)).1]
    exact h.lineNumber s' (List.mem_cons_of_mem _ hs)
  · intro hqueue
    rw [(hnumbers hqueue).1]
    exact hn
  · by_cases hqueue : queue = []
    · simp [hqueue]
    · exact (hnumbers hqueue).2

end Source.Numbered

namespace Gathered

variable {t : Text} {k tabWidth room : Nat} {c : Continuation} {r : Region} {source : Source}

theorem segments_ne_nil_of_queue (unread : List PhysicalLine) (n : Nat) {queue : List Segment}
    (h : queue ≠ []) : (gather tabWidth room c r ⟨unread, n, queue⟩).segments ≠ [] := by
  obtain ⟨s, queue, rfl⟩ := List.exists_cons_of_ne_nil h
  cases room with
  | zero => simp [gather_tooLong]
  | succ room =>
    cases hc : (c.after s).isOpen with
    | true => simp [gather_more _ _ _ _ _ _ hc]
    | false => simp [gather_complete _ _ _ _ _ _ hc]

theorem linesRead_of_segments_eq_nil (h : (gather tabWidth room c r source).segments = []) :
    (gather tabWidth room c r source).source.linesRead = source.linesRead := by
  induction room, c, r, source using gather_induction tabWidth with
  | exhausted => rw [gather_exhausted]
  | undecodable => rw [gather_undecodable]
  | text room c r t unread n =>
    rw [gather_text] at h
    exact absurd h (segments_ne_nil_of_queue _ _ (Segment.ofLine_ne_nil _ _ _ _))
  | tooLong => simp [gather_tooLong] at h
  | complete room c r unread n s queue hc => simp [gather_complete _ _ _ _ _ _ hc] at h
  | more room c r unread n s queue hc => simp [gather_more _ _ _ _ _ _ hc] at h

theorem numbered_gather (h : source.Numbered t k) :
    Segment.AreNumbered k (gather tabWidth room c r source).segments ∧
      (∀ s ∈ (gather tabWidth room c r source).segments.getLast?,
        (gather tabWidth room c r source).source.linesRead = s.lineNumber) ∧
      (gather tabWidth room c r source).source.Numbered t
        (k + ((gather tabWidth room c r source).segments.flatMap Segment.source).count '\n') := by
  induction room, c, r, source using gather_induction tabWidth generalizing k with
  | exhausted room c r n =>
    rw [gather_exhausted]
    exact ⟨trivial, by simp, h⟩
  | undecodable room c r unread n =>
    have hmem := h.unread.subset List.mem_cons_self
    simp [PhysicalLine.ofText] at hmem
  | text room c r line unread n ih =>
    rw [gather_text]
    exact ih (h.read c.directive r)
  | tooLong c r unread n s queue =>
    obtain ⟨hs, rfl, htail⟩ := h.tail
    rw [gather_tooLong]
    refine ⟨⟨hs, trivial⟩, by simpa using hs.symm, ?_⟩
    simpa using htail
  | complete room c r unread n s queue hc =>
    obtain ⟨hs, rfl, htail⟩ := h.tail
    rw [gather_complete _ _ _ _ _ _ hc]
    refine ⟨⟨hs, trivial⟩, by simpa using hs.symm, ?_⟩
    simpa using htail
  | more room c r unread n s queue hc ih =>
    obtain ⟨hs, rfl, htail⟩ := h.tail
    obtain ⟨hsegments, hlast, hsource⟩ := ih htail
    rw [gather_more _ _ _ _ _ _ hc, segments_push, source_push]
    refine ⟨⟨hs, hsegments⟩, ?_, ?_⟩
    · intro last hmem
      rw [List.getLast?_cons] at hmem
      -- If `s` is the last segment, the source was at its end, and no line has been read behind it.
      by_cases hnil : (gather tabWidth room (c.after s) r ⟨unread, k + 1, queue⟩).segments = []
      · rw [linesRead_of_segments_eq_nil hnil]
        rw [hnil] at hmem
        obtain rfl : s = last := by simpa using hmem
        exact hs.symm
      · apply hlast
        rw [List.getLast?_eq_some_getLast hnil] at hmem ⊢
        exact hmem
    · rwa [List.flatMap_cons, List.count_append, ← Nat.add_assoc]

theorem length_segments_of_tooLong (h : (gather tabWidth room c r source).ending = .tooLong) :
    (gather tabWidth room c r source).segments.length = room + 1 := by
  induction room, c, r, source using gather_induction tabWidth with
  | exhausted => simp [gather_exhausted] at h
  | undecodable => simp [gather_undecodable] at h
  | text room c r t unread n ih =>
    rw [gather_text] at h ⊢
    exact ih h
  | tooLong => simp [gather_tooLong]
  | complete room c r unread n s queue hc => simp [gather_complete _ _ _ _ _ _ hc] at h
  | more room c r unread n s queue hc ih =>
    rw [gather_more _ _ _ _ _ _ hc] at h ⊢
    exact congrArg (· + 1) (ih h)

theorem linesRead_add_unread_gather (h : .undecodable ∉ source.unread) :
    (gather tabWidth room c r source).source.linesRead +
        (gather tabWidth room c r source).source.unread.length =
      source.linesRead + source.unread.length := by
  induction room, c, r, source using gather_induction tabWidth with
  | exhausted => rw [gather_exhausted]
  | undecodable => exact absurd List.mem_cons_self h
  | text room c r t unread n ih =>
    rw [gather_text, ih fun hmem ↦ h (List.mem_cons_of_mem _ hmem)]
    exact Nat.succ_add_eq_add_succ n unread.length
  | tooLong => rw [gather_tooLong]
  | complete room c r unread n s queue hc => rw [gather_complete _ _ _ _ _ _ hc]
  | more room c r unread n s queue hc ih =>
    rw [gather_more _ _ _ _ _ _ hc, source_push]
    exact ih h

end Gathered

namespace Lexer

def handedOut (l : Lexer) : Nat → Text
  | 0 => []
  | n + 1 => l.handedOut n ++ (l.afterCalls n).next.1.lines.flatten

theorem exists_handedOut_append (l : Lexer) {k n : Nat} (h : k ≤ n) :
    ∃ between, l.handedOut n = l.handedOut k ++ between := by
  induction h with
  | refl => exact ⟨[], (List.append_nil _).symm⟩
  | step _ ih =>
    obtain ⟨between, hbetween⟩ := ih
    exact ⟨between ++ _, by rw [handedOut, hbetween, List.append_assoc]⟩

section

variable {t : Text} {s : Settings} {filename : Text} {n : Nat}

theorem numbered_ofText (t : Text) (s : Settings) (filename : Text) :
    (ofText t s filename).source.Numbered t 0 where
  unread := List.suffix_rfl
  lineNumber := by simp [ofText, ofLines, Source.ofLines]
  linesRead := by simp [ofText, ofLines, Source.ofLines]
  newline := by simp [ofText, ofLines, Source.ofLines]
  boundary := by simp [ofText, ofLines, Source.ofLines]

theorem numbered_afterCalls
    (h : ∀ k < n, ((ofText t s filename).afterCalls k).next.1.isFailure = false) :
    ((ofText t s filename).afterCalls n).source.Numbered t
      (((ofText t s filename).handedOut n).count '\n') := by
  induction n with
  | zero => exact numbered_ofText t s filename
  | succ n ih =>
    have hn := ih fun k hk ↦ h k (by omega)
    have hlines : ((ofText t s filename).afterCalls n).next.1.lines =
        ((ofText t s filename).afterCalls n).gather.segments.map Segment.source :=
      lines_readingOf (h n (by omega))
    rw [handedOut, hlines, List.count_append, ← List.flatMap_def]
    exact (Gathered.numbered_gather hn).2.2

theorem linesRead_of_done (h : ((ofText t s filename).afterCalls n).next.1 = .done) :
    ((ofText t s filename).afterCalls (n + 1)).linesRead =
      (PhysicalLine.cutLines '\n' t).length := by
  have hread (n : Nat) : ((ofText t s filename).afterCalls n).source.linesRead +
      ((ofText t s filename).afterCalls n).source.unread.length =
        (PhysicalLine.cutLines '\n' t).length := by
    induction n with
    | zero => simp [afterCalls, ofText, ofLines, Source.ofLines, PhysicalLine.ofText]
    | succ n ih =>
      rw [← ih]
      apply Gathered.linesRead_add_unread_gather
      intro hmem
      have hmem' := (unread_afterCalls_suffix _ n).subset hmem
      simp [ofText, ofLines, Source.ofLines, PhysicalLine.ofText] at hmem'
  have hend := hread (n + 1)
  rw [afterCalls, source_next_of_done h, (done_iff _).mp h] at hend
  rw [afterCalls, linesRead, source_next_of_done h]
  simpa using hend

section

variable (h : ∀ k < n, ((ofText t s filename).afterCalls k).next.1.isFailure = false)
include h

theorem numbered_gather :
    Segment.AreNumbered (((ofText t s filename).handedOut n).count '\n')
        ((ofText t s filename).afterCalls n).gather.segments ∧
      ∀ last ∈ ((ofText t s filename).afterCalls n).gather.segments.getLast?,
        ((ofText t s filename).afterCalls (n + 1)).linesRead = last.lineNumber := by
  obtain ⟨hnumbered, hlast, -⟩ := Gathered.numbered_gather (numbered_afterCalls h)
  exact ⟨hnumbered, hlast⟩

theorem lineNumber_of_line {line : LogicalLine}
    (hline : ((ofText t s filename).afterCalls n).next.1 = .line line) :
    line.lineNumber = ((ofText t s filename).handedOut n).count '\n' + 1 := by
  obtain ⟨hne, rfl, -⟩ := segments_of_line hline
  exact (numbered_gather h).1.startOf hne

theorem exists_last_gather (hne : ((ofText t s filename).afterCalls n).gather.segments ≠ []) :
    ∃ kept last, ((ofText t s filename).afterCalls n).gather.segments = kept ++ [last] ∧
      last.lineNumber =
        ((ofText t s filename).handedOut n ++ kept.flatMap Segment.source).count '\n' + 1 ∧
      ((ofText t s filename).afterCalls (n + 1)).linesRead = last.lineNumber := by
  obtain ⟨hnumbered, hread⟩ := numbered_gather h
  rcases List.eq_nil_or_concat ((ofText t s filename).afterCalls n).gather.segments with
    hnil | ⟨kept, last, hsegments⟩
  · exact absurd hnil hne
  · rw [List.concat_eq_append] at hsegments
    rw [hsegments] at hnumbered hread
    refine ⟨kept, last, hsegments, ?_, hread last (by simp)⟩
    rw [List.count_append]
    exact hnumbered.lineNumber_last

end

end

/-- As long as nothing has failed, a logical line bears the number of the physical line on which it
starts, which counts the newlines handed out before it, and behind it as many lines have been read as
there are up to its last segment; in the end all lines have. A logical line that is too long is reported
with these numbers: where it starts, and where the first segment is that it has no room for. -/
theorem lineNumber_eq_count (t : Text) (s : Settings) (filename : Text) (n : Nat)
    (h : ∀ k < n, ((ofText t s filename).afterCalls k).next.1.isFailure = false) :
    (∀ line, ((ofText t s filename).afterCalls n).next.1 = .line line →
        line.lineNumber = ((ofText t s filename).handedOut n).count '\n' + 1 ∧
          ((ofText t s filename).afterCalls (n + 1)).linesRead =
            ((ofText t s filename).handedOut n ++ line.lines.dropLast.flatten).count '\n' + 1 ∧
          ∀ k line', k ≤ n → ((ofText t s filename).afterCalls k).next.1 = .line line' →
            ∃ between, (ofText t s filename).handedOut n =
                (ofText t s filename).handedOut k ++ between ∧
              line.lineNumber = line'.lineNumber + between.count '\n') ∧
      (((ofText t s filename).afterCalls n).next.1 = .done →
        ((ofText t s filename).afterCalls (n + 1)).linesRead =
          (PhysicalLine.cutLines '\n' t).length) ∧
      ∀ e, ((ofText t s filename).afterCalls n).next.1 = .failure e →
        ∃ (kept : List Segment) (last : Segment),
          ((ofText t s filename).afterCalls n).gather.segments = kept ++ [last] ∧
            kept.length = s.maxContinuationLines ∧
            last.IsFrom (PhysicalLine.cutLines '\n' t) s.tabWidth ∧
            last.lineNumber = ((ofText t s filename).handedOut n ++
              kept.flatMap Segment.source).count '\n' + 1 ∧
            e = .located (.tooLong (((ofText t s filename).handedOut n).count '\n' + 1)
              s.maxContinuationLines filename last.lineNumber) := by
  refine ⟨fun line hline ↦ ⟨lineNumber_of_line h hline, ?_, fun k line' hk hline' ↦ ?_⟩,
    linesRead_of_done, fun e he ↦ ?_⟩
  · obtain ⟨hne, rfl, -⟩ := segments_of_line hline
    obtain ⟨kept, last, hsegments, hnumber, hread⟩ := exists_last_gather h hne
    have hdropLast : (LogicalLine.ofSegments (kept ++ [last])).lines.dropLast =
        kept.map Segment.source := by
      simp [LogicalLine.ofSegments]
    rw [hsegments, hdropLast, hread, hnumber, List.flatMap_def]
  · obtain ⟨between, hbetween⟩ := exists_handedOut_append (ofText t s filename) hk
    refine ⟨between, hbetween, ?_⟩
    rw [lineNumber_of_line h hline, lineNumber_of_line (fun i hi ↦ h i (by omega)) hline', hbetween,
      List.count_append]
    omega
  · obtain ⟨hending, rfl⟩ := (gather_of_failure he).resolve_left fun hu ↦
      ending_ne_undecodable t s filename n hu.1
    have hsettings := settings_afterCalls (ofText t s filename) n
    have hlength : ((ofText t s filename).afterCalls n).gather.segments.length =
        ((ofText t s filename).afterCalls n).settings.maxContinuationLines + 1 :=
      Gathered.length_segments_of_tooLong hending
    have hne : ((ofText t s filename).afterCalls n).gather.segments ≠ [] := by
      intro hnil
      rw [hnil] at hlength
      cases hlength
    obtain ⟨kept, last, hsegments, hnumber, hread⟩ := exists_last_gather h hne
    have hstart := (numbered_gather h).1.startOf hne
    have hfrom := isFrom_of_mem_gather t s filename n last (by simp [hsegments])
    refine ⟨kept, last, hsegments, ?_, hfrom, hnumber, ?_⟩
    · rw [hsegments, hsettings, List.length_append] at hlength
      exact Nat.succ.inj hlength
    · rw [hstart, hsettings, filename_afterCalls, ← hread]
      rfl

/-- With room for two segments: two statements on a line, a tab, and a statement that is too long. -/
def numberedText : Text :=
  "a; b &\n\tc\nd &\n&\ne".toList

theorem lineNumber_eq_count_numberedText :
    (∀ k < 2, ((ofText numberedText ⟨0, 2, false⟩ unnamed).afterCalls k).next.1.isFailure = false) ∧
      ((ofText numberedText ⟨0, 2, false⟩ unnamed).afterCalls 2).next.1 =
        .failure (.located (.tooLong 3 2 unnamed 5)) ∧
      ∃ (kept : List Segment) (last : Segment),
        ((ofText numberedText ⟨0, 2, false⟩ unnamed).afterCalls 2).gather.segments = kept ++ [last] ∧
          kept.length = 2 ∧ last.IsFrom (PhysicalLine.cutLines '\n' numberedText) 0 ∧
          last.lineNumber = ((ofText numberedText ⟨0, 2, false⟩ unnamed).handedOut 2 ++
            kept.flatMap Segment.source).count '\n' + 1 := by
  have h : ∀ k < 2,
      ((ofText numberedText ⟨0, 2, false⟩ unnamed).afterCalls k).next.1.isFailure = false := by
    decide
  have hfail : ((ofText numberedText ⟨0, 2, false⟩ unnamed).afterCalls 2).next.1 =
      .failure (.located (.tooLong 3 2 unnamed 5)) := by
    decide
  obtain ⟨-, -, hfailure⟩ := lineNumber_eq_count numberedText ⟨0, 2, false⟩ unnamed 2 h
  obtain ⟨kept, last, hsegments, hlength, hfrom, hnumber, -⟩ := hfailure _ hfail
  exact ⟨h, hfail, kept, last, hsegments, hlength, hfrom, hnumber⟩

end Lexer

end FreeForm
