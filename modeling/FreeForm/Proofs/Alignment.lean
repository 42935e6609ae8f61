import FreeForm.Proofs.Extent
import FreeForm.Proofs.Marks
import FreeForm.Proofs.Numbering

namespace FreeForm

open Text

theorem Statement.comment_ofSights (sights : List Sight) :
    (∀ s ∈ (ofSights sights).dropLast, s.comment = []) ∧
      ∀ s ∈ (ofSights sights).getLast?,
        s.comment = [] ∨ Marker.endsCode (Marker.window s.comment) := by
  induction sights using cut_induction cutsBehind with
  | whole sights h =>
    obtain ⟨front, tail, rfl, hfront, htail⟩ := exists_hidden_tail sights
    rw [ofSights_of_forall h, ofFinal_append hfront htail]
    refine ⟨by simp, ?_⟩
    cases hm : splitMark .code false (tail.map Prod.fst) with
    | none => simp
    | some parts => simpa using Or.inr (endsCode_of_splitMark hm)
  | cut piece a rest h ha ih =>
    obtain ⟨c, shown⟩ := a
    obtain ⟨rfl, rfl⟩ : shown = true ∧ c = ';' := by simpa [cutsBehind] using ha
    rw [ofSights_append_cons h]
    by_cases hrest : rest = []
    · simp [hrest]
    · have hne := ofSights_ne_nil rest
      rw [List.isEmpty_eq_false_iff.mpr hrest, if_neg Bool.false_ne_true,
        List.dropLast_cons_of_ne_nil hne, List.getLast?_cons_of_ne_nil hne]
      exact ⟨List.forall_mem_cons.mpr ⟨rfl, ih.1⟩, ih.2⟩

namespace Segment

/-- The comment starts with a mark, if there is one; if a directive goes on, it is all of the line
behind its sentinel. -/
def IsMarked (inDirective : Bool) (s : Segment) : Prop :=
  if inDirective then (Sentinel.cut s.source).2 = s.comment
  else s.comment = [] ∨ Marker.endsCode (Marker.window s.comment)

variable {line : Text} {lineNumber : Nat} {r : Region} {s : Segment}

theorem comment_ofLine (line : Text) (lineNumber : Nat) (inDirective : Bool) (r : Region) :
    (∀ s ∈ (ofLine line lineNumber inDirective r).1.dropLast,
        inDirective = false ∧ s.comment = []) ∧
      ∀ s ∈ (ofLine line lineNumber inDirective r).1.getLast?, s.IsMarked inDirective := by
  cases inDirective with
  | true =>
    have hsource := flatMap_source_ofLine line lineNumber true r
    obtain ⟨whole, hwhole, hcomment⟩ : ∃ whole, (ofLine line lineNumber true r).1 = [whole] ∧
        whole.comment = (Sentinel.cut line).2 :=
      ⟨_, rfl, rfl⟩
    rw [hwhole] at hsource ⊢
    rw [List.flatMap_singleton] at hsource
    refine ⟨by simp, ?_⟩
    simpa [IsMarked, hsource] using hcomment.symm
  | false =>
    rw [ofLine_code, Statement.ofText_eq]
    dsimp only
    generalize Region.sights r.carried false (Sentinel.cut line).2 [] = sights
    obtain ⟨hdropLast, hlast⟩ := Statement.comment_ofSights sights
    have hmap := map_toStatement_place (Sentinel.cut line).1 lineNumber (endsWith '\n' line)
      (Statement.ofSights sights)
    generalize place (Sentinel.cut line).1 lineNumber (endsWith '\n' line)
      (Statement.ofSights sights) = segments at hmap
    rw [← hmap] at hdropLast hlast
    refine ⟨fun s hs ↦ ⟨rfl, hdropLast s.toStatement ?_⟩, fun s hs ↦ hlast s.toStatement ?_⟩
    · rw [← List.map_dropLast]
      exact List.mem_map_of_mem hs
    · rw [List.getLast?_map, hs]
      rfl

theorem endsWith_source_of_getLast {inDirective : Bool} (hline : IsLine line)
    (hends : endsWith '\n' line) :
    ∀ s ∈ (ofLine line lineNumber inDirective r).1.getLast?, endsWith '\n' s.source := by
  intro s hs
  have hsource := flatMap_source_ofLine line lineNumber inDirective r
  have hnot := @newline_not_mem_dropLast_ofLine line lineNumber inDirective r hline
  obtain ⟨front, hfront⟩ := List.getLast?_eq_some_iff.mp hs
  rw [hfront, List.flatMap_append, List.flatMap_singleton] at hsource
  rw [hfront, List.dropLast_concat] at hnot
  rw [← hsource] at hends
  by_cases hempty : s.source = []
  · rw [hempty, List.append_nil, not_endsWith_of_not_mem hnot] at hends
    cases hends
  · rwa [endsWith, List.getLast?_append_of_ne_nil _ hempty] at hends

theorem IsMarked.comment_ne_nil (h : s.IsMarked true) (hends : endsWith '\n' s.source) :
    s.comment ≠ [] := by
  obtain ⟨body, hbody⟩ := List.getLast?_eq_some_iff.mp (eq_of_beq hends)
  rw [IsMarked, if_pos rfl, hbody, Sentinel.cut_lineEnd (Or.inl rfl)] at h
  rw [← h]
  simp

theorem exists_remark (h : IsLine s.comment) : ∃ ending, s.comment = s.remark ++ ending ∧
    (ending = [] ∨ ending = ['\n']) ∧ '\n' ∉ s.remark ∧ trim s.remark = trim s.comment := by
  obtain ⟨body, hbody, heq⟩ := h.exists_eq
  have hremark : s.remark = body := by
    rcases heq with heq | heq
    · rw [remark, heq, dropEndWhile_of_not_mem hbody]
    · rw [remark, heq, dropEndWhile_append_singleton, if_pos (by decide), dropEndWhile_of_not_mem hbody]
  rw [hremark]
  rcases heq with heq | heq
  · exact ⟨[], by simpa using heq, Or.inl rfl, hbody, by rw [heq]⟩
  · exact ⟨['\n'], heq, Or.inr rfl, hbody, by rw [heq, trim_append_blank _ rfl]⟩

end Segment

/-- What waits is the end of the last line read: only its last segment has a comment, and the newline,
unless that line is the last one of all. -/
structure Source.Aligned (t : Text) (inDirective : Bool) (source : Source) : Prop where
  unread : source.unread <:+ PhysicalLine.ofText t
  comment : ∀ s ∈ source.queue.dropLast, inDirective = false ∧ s.comment = []
  last : ∀ s ∈ source.queue.getLast?, s.IsMarked inDirective
  newline : source.unread ≠ [] → ∀ s ∈ source.queue.getLast?, endsWith '\n' s.source

namespace Source.Aligned

variable {t line : Text} {n : Nat} {inDirective : Bool} {unread : List PhysicalLine} {s : Segment}
  {queue : List Segment}

theorem read (h : Aligned t inDirective ⟨.text line :: unread, n, []⟩) (tabWidth : Nat) (r : Region) :
    Aligned t inDirective
      ⟨unread, n + 1, (Segment.ofLine (expandTabs tabWidth line) (n + 1) inDirective r).1⟩ := by
  obtain ⟨hcomment, hlast⟩ := Segment.comment_ofLine (expandTabs tabWidth line) (n + 1) inDirective r
  obtain ⟨hline, hends⟩ := isLine_expandTabs (PhysicalLine.isLine_of_suffix h.unread) tabWidth
  refine ⟨(List.suffix_cons _ _).trans h.unread, hcomment, hlast, fun hunread ↦ ?_⟩
  exact Segment.endsWith_source_of_getLast hline
    (hends.trans (PhysicalLine.endsWith_of_suffix h.unread hunread))

theorem of_nil (h : unread <:+ PhysicalLine.ofText t) (inDirective : Bool) (n : Nat) :
    Aligned t inDirective ⟨unread, n, []⟩ :=
  ⟨h, by simp, by simp, by simp⟩

theorem tail {inDirective' : Bool} (h : Aligned t inDirective ⟨unread, n, s :: queue⟩)
    (h' : s.comment = [] → inDirective = false → inDirective' = false) :
    Aligned t inDirective' ⟨unread, n, queue⟩ := by
  by_cases hqueue : queue = []
  · exact hqueue ▸ of_nil h.unread inDirective' n
  · -- With a segment behind `s` the line is no part of a directive, which would be a single one.
    have hcomment := h.comment
    have hlast := h.last
    have hnewline := h.newline
    rw [List.dropLast_cons_of_ne_nil hqueue] at hcomment
    rw [List.getLast?_cons_of_ne_nil hqueue] at hlast hnewline
    obtain ⟨⟨rfl, hs⟩, hrest⟩ := List.forall_mem_cons.mp hcomment
    obtain rfl := h' hs rfl
    exact ⟨h.unread, hrest, hlast, hnewline⟩

theorem head (h : Aligned t inDirective ⟨unread, n, s :: queue⟩) :
    s.IsMarked inDirective ∧ (s.comment ≠ [] ∨ inDirective → endsWith '\n' s.source = false →
      queue = [] ∧ unread = []) := by
  by_cases hqueue : queue = []
  · subst hqueue
    refine ⟨h.last s rfl, fun _ hends ↦ ⟨rfl, ?_⟩⟩
    by_contra hunread
    rw [h.newline hunread s rfl] at hends
    cases hends
  · obtain ⟨rfl, hs⟩ := h.comment s (by simp [List.dropLast_cons_of_ne_nil hqueue])
    refine ⟨Or.inl hs, fun hmark ↦ ?_⟩
    simp [hs] at hmark

end Source.Aligned

namespace Gathered

/-- Among what has been gathered the segment `s` stands at index `i`, with a mark in front of its
comment unless a directive goes on there, and without a newline only if it is the last of all. -/
structure IsAlignedAt (g : Gathered) (c : Continuation) (i : Nat) (s : Segment) : Prop where
  marked : s.IsMarked ((g.segments.take i).foldl Continuation.after c).directive
  ending : s.comment ≠ [] ∨ ((g.segments.take i).foldl Continuation.after c).directive →
    endsWith '\n' s.source = false →
      i + 1 = g.segments.length ∧ g.source.unread = [] ∧ g.source.queue = []

theorem IsAlignedAt.push {g : Gathered} {c : Continuation} {i : Nat} {s first : Segment}
    (h : g.IsAlignedAt (c.after first) i s) : (g.push first).IsAlignedAt c (i + 1) s := by
  obtain ⟨hmarked, hending⟩ := h
  refine ⟨by simpa using hmarked, fun hmark hends ↦ ?_⟩
  simpa using hending (by simpa using hmark) hends

variable {t : Text} {tabWidth room : Nat} {c : Continuation} {r : Region} {source : Source}

theorem isAlignedAt_singleton {unread : List PhysicalLine} {n : Nat} {s : Segment}
    {queue : List Segment} (h : Source.Aligned t c.directive ⟨unread, n, s :: queue⟩)
    (ending : Ending) (i : Nat) (s' : Segment) (hs : [s][i]? = some s') :
    (⟨[s], ending, ⟨unread, n, queue⟩⟩ : Gathered).IsAlignedAt c i s' := by
  obtain ⟨hmarked, hending⟩ := h.head
  obtain ⟨rfl, rfl⟩ : i = 0 ∧ s = s' := by simpa [List.getElem?_singleton] using hs
  exact ⟨hmarked, fun hmark hends ↦ ⟨rfl, (hending hmark hends).symm⟩⟩

theorem aligned_gather (h : source.Aligned t c.directive) :
    (∀ i s, (gather tabWidth room c r source).segments[i]? = some s →
        (gather tabWidth room c r source).IsAlignedAt c i s) ∧
      (gather tabWidth room c r source).source.Aligned t false := by
  induction room, c, r, source using gather_induction tabWidth with
  | exhausted room c r n =>
    rw [gather_exhausted]
    exact ⟨by simp, .of_nil h.unread _ _⟩
  | undecodable room c r unread n =>
    rw [gather_undecodable]
    exact ⟨by simp, .of_nil ((List.suffix_cons _ _).trans h.unread) _ _⟩
  | text room c r line unread n ih =>
    rw [gather_text]
    exact ih (h.read tabWidth r)
  | tooLong c r unread n s queue =>
    rw [gather_tooLong]
    exact ⟨isAlignedAt_singleton h .tooLong, h.tail fun _ _ ↦ rfl⟩
  | complete room c r unread n s queue hc =>
    rw [gather_complete _ _ _ _ _ _ hc]
    exact ⟨isAlignedAt_singleton h .complete, h.tail fun _ _ ↦ rfl⟩
  | more room c r unread n s queue hc ih =>
    obtain ⟨hmarked, hending⟩ := h.head
    obtain ⟨hsegments, hsource⟩ := ih (h.tail fun hs hd ↦ by simp [Continuation.after, hs, hd])
    rw [gather_more _ _ _ _ _ _ hc]
    refine ⟨fun i s' hs ↦ ?_, hsource⟩
    cases i with
    | zero =>
      obtain rfl := Option.some.inj hs
      refine ⟨hmarked, fun hmark hends ↦ ?_⟩
      obtain ⟨rfl, rfl⟩ := hending hmark hends
      rw [gather_exhausted]
      exact ⟨rfl, rfl, rfl⟩
    | succ i => exact (hsegments i s' hs).push

theorem IsAlignedAt.endsWith_comment {g : Gathered} {c : Continuation} {i : Nat} {s : Segment}
    (h : g.IsAlignedAt c i s) (hs : g.segments[i]? = some s) (hi : i + 1 < g.segments.length)
    (hd : ((g.segments.take (i + 1)).foldl Continuation.after c).directive) :
    endsWith '&' (trim s.comment) := by
  obtain ⟨hmarked, hending⟩ := h
  rw [List.take_add_one, hs, Option.toList_some, List.foldl_append, List.foldl_cons,
    List.foldl_nil] at hd
  generalize (g.segments.take i).foldl Continuation.after c = before at hmarked hending hd
  by_cases hcomment : s.comment = []
  · -- Then the directive goes on with a line that has neither text nor newline: no other follows.
    have hbefore : before.directive = true := by simpa [Continuation.after, hcomment] using hd
    rw [hbefore] at hmarked hending
    have hends : endsWith '\n' s.source = false := by
      rw [← Bool.not_eq_true]
      exact fun hends ↦ hmarked.comment_ne_nil hends hcomment
    exact absurd (hending (Or.inr rfl) hends).1 (Nat.ne_of_lt hi)
  · simp only [Continuation.after, List.isEmpty_eq_false_iff.mpr hcomment, Bool.false_eq_true,
      if_false, Bool.and_eq_true] at hd
    exact hd.2

end Gathered

namespace Lexer

variable {t : Text} {s : Settings} {filename : Text} {n i : Nat} {segment : Segment}

theorem aligned_afterCalls (t : Text) (s : Settings) (filename : Text) (n : Nat) :
    ((ofText t s filename).afterCalls n).source.Aligned t false := by
  induction n with
  | zero => exact .of_nil List.suffix_rfl _ _
  | succ n ih => exact (Gathered.aligned_gather ih).2

theorem aligned_gather (hs : ((ofText t s filename).afterCalls n).gather.segments[i]? = some segment) :
    ((ofText t s filename).afterCalls n).gather.IsAlignedAt .closed i segment :=
  (Gathered.aligned_gather (aligned_afterCalls t s filename n)).1 i segment hs

theorem pending_afterCalls (l : Lexer) (n : Nat) :
    (l.afterCalls n).gather.segments.flatMap Segment.source ++
        (l.afterCalls (n + 1)).source.pending l.settings.tabWidth =
      (l.afterCalls n).source.pending l.settings.tabWidth := by
  rw [afterCalls, source_next, gather, settings_afterCalls]
  exact Gathered.flatMap_source_gather _ _ _ _ _

theorem pending_afterCalls_suffix (l : Lexer) (n : Nat) :
    (l.afterCalls n).source.pending l.settings.tabWidth <:+ l.source.pending l.settings.tabWidth := by
  induction n with
  | zero => exact List.suffix_rfl
  | succ n ih => exact List.IsSuffix.trans ⟨_, pending_afterCalls l n⟩ ih

theorem source_suffix_of_getLast
    (hs : segment ∈ ((ofText t s filename).afterCalls n).gather.segments.getLast?)
    (hunread : ((ofText t s filename).afterCalls (n + 1)).source.unread = [])
    (hqueue : ((ofText t s filename).afterCalls (n + 1)).source.queue = []) :
    segment.source <:+ expandTabs s.tabWidth t := by
  have hpending := pending_afterCalls (ofText t s filename) n
  have hsuffix := pending_afterCalls_suffix (ofText t s filename) n
  have hstart : (ofText t s filename).source.pending s.tabWidth = expandTabs s.tabWidth t :=
    Source.pending_ofLines_ofText s.tabWidth t
  obtain ⟨front, hfront⟩ := List.getLast?_eq_some_iff.mp hs
  have hnothing : ((ofText t s filename).afterCalls (n + 1)).source.pending
      (ofText t s filename).settings.tabWidth = [] := by
    simp [Source.pending, hunread, hqueue]
  rw [hnothing, List.append_nil, hfront, List.flatMap_append, List.flatMap_singleton] at hpending
  rw [← hpending] at hsuffix
  exact hstart ▸ (List.suffix_append _ _).trans hsuffix

theorem isLine_comment (hs : segment ∈ ((ofText t s filename).afterCalls n).gather.segments) :
    IsLine segment.comment := by
  have hsource := (isFrom_of_mem_gather t s filename n segment hs).isLine_source
    fun physical hphysical ↦ PhysicalLine.not_mem_dropLast_of_mem_cutLines hphysical
  exact hsource.of_infix segment.comment_suffix_source.isInfix

theorem marked_of_comment
    (hs : ((ofText t s filename).afterCalls n).gather.segments[i]? = some segment)
    (hcomment : segment.comment ≠ []) :
    Marker.endsCode (Marker.window segment.comment) ∨
      ∃ previous, 0 < i ∧
        ((ofText t s filename).afterCalls n).gather.segments[i - 1]? = some previous ∧
        endsWith '&' (trim previous.comment) ∧
        LeavesDirectiveOpen (((ofText t s filename).afterCalls n).gather.segments.take i) ∧
        (Sentinel.cut segment.source).2 = segment.comment := by
  have hmarked := (aligned_gather hs).marked
  cases hd : ((((ofText t s filename).afterCalls n).gather.segments.take i).foldl
      Continuation.after .closed).directive with
  | false =>
    rw [Segment.IsMarked, hd, if_neg Bool.false_ne_true] at hmarked
    exact Or.inl (hmarked.resolve_left hcomment)
  | true =>
    rw [Segment.IsMarked, hd, if_pos rfl] at hmarked
    cases i with
    | zero => cases hd
    | succ i =>
      have hi := (List.getElem?_eq_some_iff.mp hs).1
      have hprevious := List.getElem?_eq_getElem (Nat.lt_of_succ_lt hi)
      exact Or.inr ⟨_, i.succ_pos, hprevious,
        (aligned_gather hprevious).endsWith_comment hprevious hi hd,
        (Continuation.directive_foldl_iff _).mp hd, hmarked⟩

/-- A logical line has a comment, perhaps an empty one, for each of its segments. It stands at the end of
the segment, in front of the newline if there is one, and starts with a mark; or else the comment before
it belongs to a directive and ends with a continuation mark, and it is all of its line behind the
sentinel. A segment with a comment and without a newline ends the text. -/
theorem comments_aligned (t : Text) (s : Settings) (filename : Text) (n : Nat) {line : LogicalLine}
    (h : ((ofText t s filename).afterCalls n).next.1 = .line line) :
    line.comments.length = line.lines.length ∧ 0 < line.lines.length ∧
      ∀ (i : Nat) (comment text : Text), line.comments[i]? = some comment →
        line.lines[i]? = some text →
          '\n' ∉ comment ∧ ∃ front ending, text = front ++ comment ++ ending ∧
            (ending = [] ∨ ending = ['\n']) ∧
            (comment ≠ [] →
              (Marker.endsCode (Marker.window (comment ++ ending)) ∨
                ∃ previous, 0 < i ∧ line.comments[i - 1]? = some previous ∧
                  endsWith '&' (trim previous) ∧
                  LeavesDirectiveOpen (((ofText t s filename).afterCalls n).gather.segments.take i) ∧
                  (Sentinel.cut text).2 = comment ++ ending) ∧
              (endsWith '\n' text = false →
                i + 1 = line.lines.length ∧
                  ((ofText t s filename).afterCalls (n + 1)).source.unread = [] ∧
                  ((ofText t s filename).afterCalls (n + 1)).source.queue = [] ∧
                  text <:+ expandTabs s.tabWidth t)) := by
  obtain ⟨hne, rfl, -⟩ := segments_of_line h
  have hlength : (LogicalLine.ofSegments
      ((ofText t s filename).afterCalls n).gather.segments).lines.length =
        ((ofText t s filename).afterCalls n).gather.segments.length :=
    List.length_map _
  rw [hlength]
  refine ⟨List.length_map _, List.length_pos_of_ne_nil hne, fun i comment text hcomment htext ↦ ?_⟩
  obtain ⟨segment, hs, rfl⟩ : ∃ segment,
      ((ofText t s filename).afterCalls n).gather.segments[i]? = some segment ∧
        segment.remark = comment := by
    simpa [LogicalLine.ofSegments] using hcomment
  obtain rfl : segment.source = text := by simpa [LogicalLine.ofSegments, hs] using htext
  obtain ⟨front, hfront⟩ := segment.comment_suffix_source
  obtain ⟨ending, hending, hnewline, hnot, -⟩ :=
    Segment.exists_remark (isLine_comment (List.mem_of_getElem? hs))
  refine ⟨hnot, front, ending, ?_, hnewline, fun hremark ↦ ?_⟩
  · rw [List.append_assoc, ← hending, hfront]
  · have hne : segment.comment ≠ [] := by
      rw [hending]
      exact List.append_ne_nil_of_left_ne_nil hremark ending
    rw [← hending]
    refine ⟨(marked_of_comment hs hne).imp_right ?_, fun hends ↦ ?_⟩
    · rintro ⟨previous, hi, hprevious, hamp, hopen, hwhole⟩
      obtain ⟨-, -, -, -, htrim⟩ := Segment.exists_remark (isLine_comment (List.mem_of_getElem? hprevious))
      refine ⟨previous.remark, hi, ?_, htrim ▸ hamp, hopen, hwhole⟩
      simp [LogicalLine.ofSegments, hprevious]
    · obtain ⟨hi, hunread, hqueue⟩ := (aligned_gather hs).ending (Or.inl hne) hends
      refine ⟨hi, hunread, hqueue, source_suffix_of_getLast ?_ hunread hqueue⟩
      rwa [List.getLast?_eq_getElem?, ← hi, Nat.add_sub_cancel]

/-- A comment inside a statement that goes on, and a directive that goes on where the text ends. -/
def directiveText : Text :=
  "x = 1; y = &\n ! c\n !$ z #:if a &\n b; c".toList

theorem comments_aligned_directiveText :
    ((ofText directiveText ⟨8, 100, false⟩ unnamed).afterCalls 1).next.1 =
        .line ⟨"y = z".toList, [[], "! c".toList, "#:if a &".toList, " b; c".toList],
          [" y = &\n".toList, " ! c\n".toList, " !$ z #:if a &\n".toList, " b; c".toList], 1⟩ ∧
      (∃ front ending, " !$ z #:if a &\n".toList = front ++ "#:if a &".toList ++ ending ∧
        (ending = [] ∨ ending = ['\n'])) ∧
      LeavesDirectiveOpen
        (((ofText directiveText ⟨8, 100, false⟩ unnamed).afterCalls 1).gather.segments.take 3) ∧
      ((ofText directiveText ⟨8, 100, false⟩ unnamed).afterCalls 2).source.unread = [] := by
  have hline : ((ofText directiveText ⟨8, 100, false⟩ unnamed).afterCalls 1).next.1 =
      .line ⟨"y = z".toList, [[], "! c".toList, "#:if a &".toList, " b; c".toList],
        [" y = &\n".toList, " ! c\n".toList, " !$ z #:if a &\n".toList, " b; c".toList], 1⟩ := rfl
  obtain ⟨-, -, hentries⟩ := comments_aligned _ _ _ _ hline
  obtain ⟨-, front, ending, hsplit, hending, -⟩ := hentries 2 "#:if a &".toList _ rfl rfl
  obtain ⟨-, -, ending', -, hending', hcomment⟩ := hentries 3 " b; c".toList _ rfl rfl
  obtain ⟨hmark, hlast⟩ := hcomment (by decide)
  refine ⟨hline, ⟨front, ending, hsplit, hending⟩, ?_, (hlast rfl).2.1⟩
  rcases hmark with hmark | ⟨-, -, -, -, hopen, -⟩
  · rcases hending' with rfl | rfl <;> cases hmark
  · exact hopen

end Lexer

end FreeForm
