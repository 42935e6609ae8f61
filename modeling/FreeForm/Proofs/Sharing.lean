import FreeForm.Proofs.Limit
import FreeForm.Proofs.Records
import FreeForm.Proofs.Semicolons
import Mathlib.Data.List.Dedup

namespace FreeForm

open Text

namespace Segment

def lineCount (segments : List Segment) : Nat :=
  (segments.map lineNumber).dedup.length

variable {segments : List Segment} {s : Segment} {k : Nat}

theorem AreNumbered.lt_lineNumber (h : AreNumbered k segments) (hs : s ∈ segments) :
    k < s.lineNumber := by
  induction segments generalizing k with
  | nil => cases hs
  | cons first segments ih =>
    obtain ⟨hfirst, hrest⟩ := h
    rcases List.mem_cons.mp hs with rfl | hs
    · omega
    · have := ih hrest hs
      omega

/-- Of two neighbours the second one starts a physical line exactly if a newline ends the first one. -/
theorem AreNumbered.lineCount_cons_cons {first second : Segment}
    (h : AreNumbered k (first :: second :: segments)) (hline : IsLine first.source) :
    lineCount (first :: second :: segments) =
      lineCount (second :: segments) + if endsWith '\n' first.source then 1 else 0 := by
  obtain ⟨hfirst, hrest⟩ := h
  have hcount := count_newline_eq hline
  rw [lineCount, List.map_cons]
  by_cases hends : endsWith '\n' first.source
  · have hnot : first.lineNumber ∉ (second :: segments).map lineNumber := by
      intro hmem
      obtain ⟨other, hother, heq⟩ := List.mem_map.mp hmem
      have := hrest.lt_lineNumber hother
      rw [if_pos hends] at hcount
      omega
    rw [List.dedup_cons_of_notMem hnot, List.length_cons, if_pos hends, lineCount]
  · have hsame : first.lineNumber = second.lineNumber := by
      have hsecond := hrest.1
      rw [if_neg hends] at hcount
      omega
    rw [List.dedup_cons_of_mem (by simp [hsame]), if_neg hends, lineCount, Nat.add_zero]

theorem AreNumbered.lineCount_add (h : AreNumbered k segments)
    (hlines : ∀ s ∈ segments, IsLine s.source) :
    lineCount segments + segments.dropLast.countP (fun s ↦ !endsWith '\n' s.source) =
      segments.length := by
  induction segments generalizing k with
  | nil => rfl
  | cons first segments ih =>
    cases segments with
    | nil => rfl
    | cons second segments =>
      obtain ⟨hfirst, hrest⟩ := List.forall_mem_cons.mp hlines
      have htail := ih h.2 hrest
      rw [h.lineCount_cons_cons hfirst, List.dropLast_cons_of_ne_nil (List.cons_ne_nil _ _),
        List.countP_cons, List.length_cons]
      cases endsWith '\n' first.source <;> simp at htail ⊢ <;> omega

theorem text_of_separated {line : Text} {lineNumber : Nat} {inDirective : Bool} {r : Region}
    (h : s ∈ (ofLine line lineNumber inDirective r).1) (hs : s.separated) :
    s.text = s.code ++ [';'] := by
  cases inDirective with
  | true =>
    obtain rfl := List.mem_singleton.mp h
    cases hs
  | false =>
    have hmem := List.mem_map_of_mem (f := toStatement) h
    rw [map_toStatement_ofLine] at hmem
    exact (Statement.separated_ofSights _).2 _ hmem hs

theorem IsFrom.text_of_separated {texts : List Text} {tabWidth : Nat} (h : s.IsFrom texts tabWidth)
    (hs : s.separated) : s.text = s.code ++ [';'] := by
  obtain ⟨t, n, inDirective, r, -, -, hmem⟩ := h
  exact Segment.text_of_separated hmem hs

theorem comment_of_text (h : s.text = s.code ++ [';']) (hs : s.separated) : s.comment = [] := by
  simpa [Statement.text, hs] using h

theorem endsWith_of_text (h : s.text = s.code ++ [';']) : endsWith '\n' s.source = false := by
  rw [source, h, ← List.append_assoc, endsWith, List.getLast?_concat]
  rfl

theorem separated_of_mem_dropLast_ofLine (line : Text) (lineNumber : Nat) (inDirective : Bool)
    (r : Region) : ∀ s ∈ (ofLine line lineNumber inDirective r).1.dropLast, s.separated := by
  cases inDirective with
  | true => simp [ofLine_directive, place]
  | false =>
    intro s hs
    have hmem := List.mem_map_of_mem (f := toStatement) hs
    rw [List.map_dropLast, map_toStatement_ofLine] at hmem
    exact (Statement.separated_ofSights _).1 _ hmem

end Segment

/-- What waits is the end of a physical line, of which only the last segment can lack its semicolon. -/
def Source.Separated (source : Source) : Prop :=
  ∀ s ∈ source.queue.dropLast, s.separated

theorem Source.Separated.tail {unread : List PhysicalLine} {n : Nat} {s : Segment}
    {queue : List Segment} (h : Separated ⟨unread, n, s :: queue⟩) :
    Separated ⟨unread, n, queue⟩ ∧ (queue ≠ [] → s.separated) := by
  by_cases hqueue : queue = []
  · subst hqueue
    exact ⟨fun s' hs ↦ absurd hs List.not_mem_nil, fun hne ↦ absurd rfl hne⟩
  · rw [Separated, List.dropLast_cons_of_ne_nil hqueue] at h
    obtain ⟨hs, hrest⟩ := List.forall_mem_cons.mp h
    exact ⟨hrest, fun _ ↦ hs⟩

namespace Gathered

variable {t : Text} {tabWidth room : Nat} {c : Continuation} {r : Region} {source : Source}

theorem separated_gather (h : source.Aligned t c.directive) (hqueue : source.Separated) :
    (∀ s ∈ (gather tabWidth room c r source).segments.dropLast,
        endsWith '\n' s.source ∨ s.separated) ∧
      (gather tabWidth room c r source).source.Separated := by
  induction room, c, r, source using gather_induction tabWidth with
  | exhausted =>
    rw [gather_exhausted]
    exact ⟨by simp, hqueue⟩
  | undecodable =>
    rw [gather_undecodable]
    exact ⟨by simp, hqueue⟩
  | text room c r line unread n ih =>
    rw [gather_text]
    exact ih (h.read tabWidth r) (Segment.separated_of_mem_dropLast_ofLine _ _ _ _)
  | tooLong c r unread n s queue =>
    rw [gather_tooLong]
    exact ⟨by simp, hqueue.tail.1⟩
  | complete room c r unread n s queue hc =>
    rw [gather_complete _ _ _ _ _ _ hc]
    exact ⟨by simp, hqueue.tail.1⟩
  | more room c r unread n s queue hc ih =>
    obtain ⟨htail, hs⟩ := hqueue.tail
    obtain ⟨hsegments, hsource⟩ :=
      ih (h.tail fun hcomment hd ↦ by simp [Continuation.after, hcomment, hd]) htail
    rw [gather_more _ _ _ _ _ _ hc, segments_push, source_push]
    refine ⟨?_, hsource⟩
    by_cases hnil : (gather tabWidth room (c.after s) r ⟨unread, n, queue⟩).segments = []
    · simp [hnil]
    · rw [List.dropLast_cons_of_ne_nil hnil]
      refine List.forall_mem_cons.mpr ⟨?_, hsegments⟩
      by_cases hempty : queue = []
      · -- The next segment comes from another line, so this one has its newline.
        subst hempty
        refine Or.inl (h.newline ?_ s rfl)
        rintro rfl
        exact hnil (by rw [gather_exhausted])
      · exact Or.inr (hs hempty)

end Gathered

namespace Lexer

variable (t : Text) (s : Settings) (filename : Text) (n : Nat)

theorem separated_afterCalls : ((ofText t s filename).afterCalls n).source.Separated := by
  induction n with
  | zero => exact fun segment hs ↦ absurd hs List.not_mem_nil
  | succ n ih => exact (Gathered.separated_gather (aligned_afterCalls t s filename n) ih).2

theorem maxContinuationLines_afterCalls :
    ((ofText t s filename).afterCalls n).settings.maxContinuationLines = s.maxContinuationLines :=
  congrArg Settings.maxContinuationLines (settings_afterCalls (ofText t s filename) n)

theorem length_gather_le : ((ofText t s filename).afterCalls n).gather.segments.length ≤
    s.maxContinuationLines + 1 := by
  rw [← maxContinuationLines_afterCalls t s filename n]
  by_cases h : ((ofText t s filename).afterCalls n).gather.ending = .tooLong
  · exact (Gathered.length_segments_of_tooLong h).le
  · exact (Gathered.length_segments_le h).trans (Nat.le_succ _)

section

variable {t s filename n} {segment : Segment}

theorem text_of_mem_gather (h : segment ∈ ((ofText t s filename).afterCalls n).gather.segments)
    (hs : segment.separated) : segment.text = segment.code ++ [';'] :=
  (isFrom_of_mem_gather t s filename n segment h).text_of_separated hs

theorem separated_iff_of_mem_dropLast
    (h : segment ∈ ((ofText t s filename).afterCalls n).gather.segments.dropLast) :
    segment.separated = !endsWith '\n' segment.source := by
  have hgather := (Gathered.separated_gather (aligned_afterCalls t s filename n)
    (separated_afterCalls t s filename n)).1 segment h
  cases hs : segment.separated with
  | true =>
    have htext := text_of_mem_gather ((List.dropLast_sublist _).subset h) hs
    rw [Segment.endsWith_of_text htext]
    rfl
  | false => simpa [hs] using hgather

theorem leavesStatementOpen_of_separated {kept rest : List Segment}
    (h : ((ofText t s filename).afterCalls n).gather.segments = kept ++ segment :: rest)
    (hrest : rest ≠ []) (hs : segment.separated) : LeavesStatementOpen (kept ++ [segment]) := by
  have hmem : segment ∈ ((ofText t s filename).afterCalls n).gather.segments := by simp [h]
  have hat : ((ofText t s filename).afterCalls n).gather.segments[kept.length]? = some segment := by
    simp [h]
  have htake : ((ofText t s filename).afterCalls n).gather.segments.take (kept.length + 1) =
      kept ++ [segment] := by
    rw [h, ← List.singleton_append, ← List.append_assoc, List.take_left' (by simp)]
  have hlt : kept.length + 1 < ((ofText t s filename).afterCalls n).gather.segments.length := by
    have := List.length_pos_of_ne_nil hrest
    rw [h, List.length_append, List.length_cons]
    omega
  have hcomment := Segment.comment_of_text (text_of_mem_gather hmem hs) hs
  have hopen : ((((ofText t s filename).afterCalls n).gather.segments.take (kept.length + 1)).foldl
      Continuation.after .closed).isOpen := Gathered.isOpen_foldl_take (Nat.succ_pos _) hlt
  -- A directive would go on with a comment, and there is none in front of a semicolon.
  have hdirective := mt ((aligned_gather hat).endsWith_comment hat hlt) (by rw [hcomment]; decide)
  rw [htake] at hopen hdirective
  rw [Continuation.isOpen, Bool.or_eq_true] at hopen
  exact (Continuation.statement_foldl _).mp (hopen.resolve_right hdirective)

theorem failure_iff {e : ReadError} : ((ofText t s filename).afterCalls n).next.1 = .failure e ↔
    s.maxContinuationLines < ((ofText t s filename).afterCalls n).gather.segments.length ∧
      e = .located (.tooLong
        (LogicalLine.startOf ((ofText t s filename).afterCalls n).gather.segments)
        s.maxContinuationLines filename ((ofText t s filename).afterCalls (n + 1)).linesRead) := by
  have hlimit := maxContinuationLines_afterCalls t s filename n
  have hname := filename_afterCalls (ofText t s filename) n
  constructor
  · intro h
    obtain ⟨hending, rfl⟩ := (gather_of_failure h).resolve_left fun hu ↦
      ending_ne_undecodable t s filename n hu.1
    have hlength : ((ofText t s filename).afterCalls n).gather.segments.length =
        ((ofText t s filename).afterCalls n).settings.maxContinuationLines + 1 :=
      Gathered.length_segments_of_tooLong hending
    refine ⟨by omega, ?_⟩
    rw [hlimit, hname]
    rfl
  · rintro ⟨hlt, rfl⟩
    have hending : ((ofText t s filename).afterCalls n).gather.ending = .tooLong := by
      by_contra hshort
      have hle : ((ofText t s filename).afterCalls n).gather.segments.length ≤
          ((ofText t s filename).afterCalls n).settings.maxContinuationLines :=
        Gathered.length_segments_le hshort
      omega
    rw [next]
    simp only [readingOf, hending, hlimit, hname]
    rfl

end

/-- Each semicolon between the segments of a logical line saves a physical line. -/
theorem lineCount_add_countP :
    Segment.lineCount ((ofText t s filename).afterCalls n).gather.segments +
        ((ofText t s filename).afterCalls n).gather.segments.dropLast.countP (·.separated) =
      ((ofText t s filename).afterCalls n).gather.segments.length := by
  obtain ⟨k, hk⟩ := exists_numbered_afterCalls t s filename n
  have hlines : ∀ segment ∈ ((ofText t s filename).afterCalls n).gather.segments,
      IsLine segment.source := by
    intro segment hsegment
    apply (isFrom_of_mem_gather t s filename n segment hsegment).isLine_source
    intro physical hphysical
    exact PhysicalLine.not_mem_dropLast_of_mem_cutLines hphysical
  have hadd := (Gathered.numbered_gather hk).1.lineCount_add hlines
  rw [List.countP_congr fun segment hsegment ↦ by
    rw [separated_iff_of_mem_dropLast hsegment]]
  exact hadd

/-- The limit counts segments. Those of a logical line come from one physical line fewer for each semicolon
that stands between them and leaves the statement open; so a logical line that is too long comes from more
physical lines than the limit exactly if there is no such semicolon. -/
theorem limit_counts_segments :
    ∃ segments, segments = ((ofText t s filename).afterCalls n).gather.segments ∧
      (∀ segment ∈ segments, segment.IsFrom (PhysicalLine.cutLines '\n' t) s.tabWidth) ∧
      segments.length ≤ s.maxContinuationLines + 1 ∧
      (∀ e, ((ofText t s filename).afterCalls n).next.1 = .failure e ↔
        s.maxContinuationLines < segments.length ∧
          e = .located (.tooLong (LogicalLine.startOf segments) s.maxContinuationLines filename
            ((ofText t s filename).afterCalls (n + 1)).linesRead)) ∧
      Segment.lineCount segments + segments.dropLast.countP (·.separated) = segments.length ∧
      (s.maxContinuationLines < segments.length →
        (s.maxContinuationLines < Segment.lineCount segments ↔
          ∀ segment ∈ segments.dropLast, segment.separated = false)) ∧
      ∀ kept segment rest, segments = kept ++ segment :: rest → rest ≠ [] →
        (segment.separated ↔ endsWith '\n' segment.source = false) ∧
          (segment.separated → LeavesStatementOpen (kept ++ [segment])) := by
  have hlength := length_gather_le t s filename n
  have hadd := lineCount_add_countP t s filename n
  refine ⟨_, rfl, isFrom_of_mem_gather t s filename n, hlength, fun e ↦ failure_iff, hadd,
    fun hlt ↦ ?_, fun kept segment rest hsplit hrest ↦ ⟨?_, ?_⟩⟩
  · have hnone : ((ofText t s filename).afterCalls n).gather.segments.dropLast.countP
        (·.separated) = 0 ↔ ∀ segment ∈
          ((ofText t s filename).afterCalls n).gather.segments.dropLast,
            segment.separated = false := by
      simp [List.countP_eq_zero]
    rw [← hnone]
    omega
  · have hmem : segment ∈ ((ofText t s filename).afterCalls n).gather.segments.dropLast := by
      rw [hsplit, List.dropLast_append_of_ne_nil (List.cons_ne_nil _ _),
        List.dropLast_cons_of_ne_nil hrest]
      simp
    rw [separated_iff_of_mem_dropLast hmem, Bool.not_eq_true']
  · exact leavesStatementOpen_of_separated hsplit hrest

def sharedText : Text :=
  "x = &\n; y\n".toList

theorem limit_counts_segments_sharedText :
    ∃ segments, segments = (ofText sharedText ⟨8, 2, false⟩ unnamed).gather.segments ∧
      segments.length = 3 ∧ Segment.lineCount segments = 2 ∧
      (ofText sharedText ⟨8, 2, false⟩ unnamed).next.1 =
        .failure (.located (.tooLong 1 2 unnamed 2)) ∧
      ∃ segment ∈ segments.dropLast, segment.separated := by
  obtain ⟨segments, hsegments, -, -, hfailure, hadd, hlines, -⟩ :=
    limit_counts_segments sharedText ⟨8, 2, false⟩ unnamed 0
  have hlength : segments.length = 3 := by
    rw [hsegments]
    rfl
  have hcount : segments.dropLast.countP (·.separated) = 1 := by
    rw [hsegments]
    decide
  have hstart : LogicalLine.startOf segments = 1 := by
    rw [hsegments]
    rfl
  have hlineCount : Segment.lineCount segments = 2 := by omega
  refine ⟨segments, hsegments, hlength, hlineCount, ?_, ?_⟩
  · refine (hfailure _).mpr ⟨by rw [hlength]; decide, ?_⟩
    rw [hstart]
    rfl
  · by_contra hnone
    have hlt := (hlines (by rw [hlength]; decide)).mpr (by simpa using hnone)
    rw [hlineCount] at hlt
    exact absurd hlt (by decide)

/-- A limit of two physical lines rejects two physical lines. -/
theorem not_limit_counts_lines_sharedText :
    (ofText sharedText ⟨8, 2, false⟩ unnamed).next.1 =
        .failure (.located (.tooLong 1 2 unnamed 2)) ∧
      ¬∀ (t : Text) (s : Settings) (filename : Text) (n : Nat) (e : ReadError),
        1 ≤ s.maxContinuationLines → ((ofText t s filename).afterCalls n).next.1 = .failure e →
          s.maxContinuationLines <
            Segment.lineCount ((ofText t s filename).afterCalls n).gather.segments := by
  have hfail : (ofText sharedText ⟨8, 2, false⟩ unnamed).next.1 =
      .failure (.located (.tooLong 1 2 unnamed 2)) := rfl
  refine ⟨hfail, fun h ↦ ?_⟩
  have hlt := h sharedText ⟨8, 2, false⟩ unnamed 0 _ (by decide) hfail
  revert hlt
  decide

end Lexer

end FreeForm
