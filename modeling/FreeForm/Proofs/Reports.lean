import FreeForm.Command.Outcome
import FreeForm.Proofs.Alignment
import FreeForm.Proofs.Lossless
import FreeForm.Proofs.Records

namespace FreeForm

open Text

namespace Reading

def line? : Reading → Option LogicalLine
  | line l => some l
  | failure _ | done => none

def failure? : Reading → Option ReadError
  | failure e => some e
  | line _ | done => none

theorem line?_eq_some_iff {r : Reading} {l : LogicalLine} : r.line? = some l ↔ r = .line l := by
  cases r <;> simp [line?]

theorem failure?_eq_some_iff {r : Reading} {e : ReadError} : r.failure? = some e ↔ r = .failure e := by
  cases r <;> simp [failure?]

end Reading

namespace Lexer

def finishedLines (l : Lexer) : List Report.Finished :=
  l.steps.filterMap fun step ↦ step.reading.line?.map (·, step.truncated)

def logicalLines (l : Lexer) : List LogicalLine :=
  l.steps.filterMap (·.reading.line?)

def failure? (l : Lexer) : Option ReadError :=
  l.steps.findSome? (·.reading.failure?)

def isLeftOpen (l : Lexer) : Bool :=
  l.steps.dropLast.getLast?.any (·.truncated)

variable {l : Lexer}

theorem done_of_truncated (h : l.next.2.truncated) : l.next.2.next.1 = .done := by
  have he : l.gather.ending = .exhausted := by
    simp only [next, Bool.and_eq_true, decide_eq_true_eq] at h
    exact h.1
  exact (done_iff _).mpr (Gathered.source_of_exhausted he)

section

variable (h : l.next.1 = .done)
include h

theorem steps_of_done : l.steps = [l.step] := by
  rw [steps_eq, if_pos h]

theorem finishedLines_of_done : l.finishedLines = [] := by
  simp [finishedLines, steps_of_done h, step, h, Reading.line?]

theorem failure?_of_done : l.failure? = none := by
  simp [failure?, steps_of_done h, step, h, Reading.failure?]

theorem isLeftOpen_of_done : l.isLeftOpen = false := by
  simp [isLeftOpen, steps_of_done h]

end

section

variable (h : l.next.1 ≠ .done)
include h

theorem steps_of_not_done : l.steps = l.step :: l.next.2.steps := by
  rw [steps_eq, if_neg h]

theorem finishedLines_next : l.finishedLines =
    (l.next.1.line?.map (·, l.next.2.truncated)).toList ++ l.next.2.finishedLines := by
  rw [finishedLines, steps_of_not_done h, List.filterMap_cons]
  cases hline : l.next.1.line? <;> simp [step, hline, finishedLines]

theorem failure?_next : l.failure? = l.next.1.failure?.or l.next.2.failure? := by
  rw [failure?, steps_of_not_done h, List.findSome?_cons]
  cases hfailure : l.next.1.failure? <;> simp [step, hfailure, failure?]

theorem isLeftOpen_next : l.isLeftOpen = (l.next.2.truncated || l.next.2.isLeftOpen) := by
  rw [isLeftOpen, steps_of_not_done h, List.dropLast_cons_of_ne_nil (steps_ne_nil _), List.getLast?_cons]
  by_cases hd : l.next.2.next.1 = .done
  · simp [isLeftOpen, steps_of_done hd, step]
  · have ht : l.next.2.truncated = false := by
      by_contra ht
      exact hd (done_of_truncated (by simpa using ht))
    have hne : l.next.2.steps.dropLast ≠ [] := by
      rw [steps_of_not_done hd, List.dropLast_cons_of_ne_nil (steps_ne_nil _)]
      simp
    rw [ht, Bool.false_or, isLeftOpen, List.getLast?_eq_some_getLast hne]
    rfl

end

end Lexer

namespace Report

/-- The first error of a run is its result. If there is none, a line that is left open may be one. -/
theorem finished_run (strict : Bool) (l : Lexer) : finished strict l.run =
    match l.failure? with
    | some e => .error e
    | none =>
      if strict && l.isLeftOpen then .error (.located (.openAtEnd l.filename l.finalRead))
      else .ok l.finishedLines := by
  induction l using Lexer.steps_induction with
  | done l hd =>
    rw [Lexer.failure?_of_done hd, Lexer.isLeftOpen_of_done hd, Lexer.finishedLines_of_done hd,
      Bool.and_false, Lexer.run_eq, if_pos hd]
    generalize l.next = outcome at hd
    obtain ⟨reading, l'⟩ := outcome
    obtain rfl : reading = .done := hd
    rfl
  | more l hd ih =>
    rw [Lexer.failure?_next hd, Lexer.isLeftOpen_next hd, Lexer.finishedLines_next hd,
      ← Lexer.finalRead_next hd, Lexer.run_eq, if_neg hd]
    have hfilename : l.next.2.filename = l.filename := rfl
    have hend := @Lexer.done_of_truncated l
    generalize l.next = outcome at hd ih hfilename hend
    obtain ⟨reading, l'⟩ := outcome
    dsimp only at hd ih hfilename hend ⊢
    cases reading with
    | done => exact absurd rfl hd
    | failure e => rfl
    | line line =>
      rw [finished, ih]
      cases htruncated : l'.truncated with
      | true =>
        have hdone := hend htruncated
        have hread : l'.next.2.linesRead = l'.linesRead := by
          rw [Lexer.linesRead, Lexer.source_next_of_done hdone, Lexer.linesRead]
        rw [Lexer.failure?_of_done hdone, Lexer.isLeftOpen_of_done hdone, Lexer.finishedLines_of_done hdone,
          Lexer.finalRead_of_done hdone, hread, hfilename]
        cases strict <;> rfl
      | false =>
        rw [hfilename]
        cases l'.failure? with
        | some e => rfl
        | none =>
          cases strict <;> cases l'.isLeftOpen <;> rfl

theorem linesRead_run (l : Lexer) : linesRead l.run = l.finalRead := by
  have hlast : l.steps.getLast? = l.run.getLast?.map fun o ↦
      (⟨o.1, o.2.linesRead, o.2.truncated⟩ : Lexer.Step) := List.getLast?_map
  rw [List.getLast?_eq_some_getLast l.steps_ne_nil] at hlast
  obtain ⟨outcome, houtcome, heq⟩ := Option.map_eq_some_iff.mp hlast.symm
  rw [linesRead, houtcome, Lexer.finalRead, ← heq]
  rfl

end Report

namespace Lexer

theorem finalRead_eq_afterCalls (l : Lexer) :
    ∃ n, (l.afterCalls n).next.1 = .done ∧ l.finalRead = (l.afterCalls (n + 1)).linesRead := by
  induction l using steps_induction with
  | done l hd => exact ⟨0, hd, finalRead_of_done hd⟩
  | more l hd ih =>
    obtain ⟨n, hdone, hread⟩ := ih
    rw [afterCalls_next] at hdone hread
    exact ⟨n + 1, hdone, finalRead_next hd ▸ hread⟩

theorem finalRead_ofText (t : Text) (s : Settings) (filename : Text) :
    (ofText t s filename).finalRead = (PhysicalLine.cutLines '\n' t).length := by
  obtain ⟨n, hdone, hread⟩ := finalRead_eq_afterCalls (ofText t s filename)
  rw [hread, linesRead_of_done hdone]

theorem flatMap_lines_finishedLines (l : Lexer) :
    l.finishedLines.flatMap (·.1.lines.flatten) = (l.steps.flatMap (·.reading.lines)).flatten := by
  rw [finishedLines]
  induction l.steps with
  | nil => rfl
  | cons step steps ih =>
    rw [List.filterMap_cons, List.flatMap_cons, List.flatten_append, ← ih]
    cases hreading : step.reading <;> simp [Reading.line?, Reading.lines]

theorem map_fst_finishedLines (l : Lexer) : l.finishedLines.map Prod.fst = l.logicalLines := by
  rw [finishedLines, logicalLines, List.map_filterMap]
  simp [Function.comp_def]

theorem isFailure_of_failure? {l : Lexer} (h : l.failure? = none) :
    ∀ step ∈ l.steps, step.reading.isFailure = false := by
  intro step hstep
  have hnone := List.findSome?_eq_none_iff.mp h step hstep
  cases hreading : step.reading with
  | failure e =>
    rw [hreading] at hnone
    cases hnone
  | line | done => rfl

theorem exists_tooLong_of_failure? {t : Text} {s : Settings} {filename : Text} {e : ReadError}
    (h : (ofText t s filename).failure? = some e) :
    ∃ start n, e = .located (.tooLong start s.maxContinuationLines filename n) := by
  obtain ⟨step, hstep, he⟩ := List.exists_of_findSome?_eq_some h
  obtain ⟨n, rfl⟩ := exists_of_mem_steps hstep
  rcases gather_of_failure (Reading.failure?_eq_some_iff.mp he) with ⟨hending, -⟩ | ⟨-, rfl⟩
  · exact absurd hending (ending_ne_undecodable t s filename n)
  · rw [settings_afterCalls, filename_afterCalls]
    exact ⟨_, _, rfl⟩

end Lexer

namespace Report

theorem mismatch?_of_failure? {t : Text} {s : Settings} {filename : Text}
    (h : (Lexer.ofText t s filename).failure? = none) :
    mismatch? s filename t (Lexer.ofText t s filename).finishedLines = none := by
  have hsource := Lexer.flatten_lines_steps _ (Lexer.isFailure_of_failure? h)
  have hpending : (Lexer.ofText t s filename).source.pending s.tabWidth = expandTabs s.tabWidth t :=
    Source.pending_ofLines_ofText s.tabWidth t
  rw [← Lexer.flatMap_lines_finishedLines] at hsource
  rw [mismatch?, if_pos (hsource.trans hpending)]

theorem ofText_eq (o : Options) (s : Settings) (filename t : Text) : ofText o s filename t =
    match (Lexer.ofText t s filename).failure? with
    | some e => .error e
    | none =>
      if s.strict && (Lexer.ofText t s filename).isLeftOpen then
        .error (.located (.openAtEnd filename (PhysicalLine.cutLines '\n' t).length))
      else
        .ok (ofFinished o filename (Lexer.ofText t s filename).finishedLines
          (PhysicalLine.cutLines '\n' t).length) := by
  have hfinished := finished_run s.strict (Lexer.ofText t s filename)
  rw [Lexer.finalRead_ofText] at hfinished
  rw [ofText]
  dsimp only
  rw [hfinished, linesRead_run, Lexer.finalRead_ofText]
  cases hfailure : (Lexer.ofText t s filename).failure? with
  | some e => rfl
  | none =>
    by_cases hopen : s.strict && (Lexer.ofText t s filename).isLeftOpen
    · simp only [hopen, if_true]
      rfl
    · simp only [hopen, Bool.false_eq_true, if_false, mismatch?_of_failure? hfailure]

end Report

namespace Text

theorem newline_not_mem_toDigits {b : Nat} (hb : 1 < b) (n : Nat) : '\n' ∉ Nat.toDigits b n := by
  have hdigit (n : Nat) : '\n' ≠ Nat.digitChar n := (Nat.digitChar_ne '\n' (by decide)).symm
  induction n using Nat.strongRecOn with
  | _ n ih =>
    rw [Nat.toDigits_eq_if hb]
    split
    · simp [hdigit]
    · next hle =>
      have hlt : n / b < n := Nat.div_lt_self (by omega) hb
      simp [ih _ hlt, hdigit]

theorem newline_not_mem_escapeChar (c : Char) : '\n' ∉ escapeChar c := by
  have hnumber : '\n' ∉ numberEscape c := by
    simp [numberEscape, hexDigits, newline_not_mem_toDigits]
  by_cases hc : c = '\n'
  · subst hc
    decide
  · have hself : '\n' ∉ [c] := by simpa using Ne.symm hc
    have hescaped : '\n' ∉ ['\\', c] := by simpa using Ne.symm hc
    rw [escapeChar]
    split_ifs <;> first | assumption | decide

theorem newline_not_mem_quote (t : Text) : '\n' ∉ quote t := by
  simp [quote, newline_not_mem_escapeChar]

end Text

theorem Command.splitOn_unlines {lines : List Text} (h : ∀ line ∈ lines, '\n' ∉ line) :
    (unlines lines).splitOn '\n' = lines ++ [[]] := by
  induction lines with
  | nil => rfl
  | cons line lines ih =>
    obtain ⟨hline, hlines⟩ := List.forall_mem_cons.mp h
    have hpiece : ∀ c ∈ line, (c == '\n') = false := by
      intro c hc
      simpa using ne_of_mem_of_not_mem hc hline
    have hsplit := List.splitOnP_append_cons_of_forall_mem hpiece '\n' (by simp) (unlines lines)
    have hunlines : unlines (line :: lines) = line ++ '\n' :: unlines lines := by
      simp [unlines]
    rw [hunlines, List.splitOn, hsplit, ← List.splitOn, ih hlines, List.cons_append]

theorem Lexer.newline_not_mem_comments {t : Text} {s : Settings} {filename : Text} {line : LogicalLine}
    (h : line ∈ (ofText t s filename).logicalLines) : ∀ comment ∈ line.comments, '\n' ∉ comment := by
  obtain ⟨step, hstep, hline⟩ := List.mem_filterMap.mp h
  obtain ⟨n, rfl⟩ := exists_of_mem_steps hstep
  obtain ⟨-, rfl, -⟩ := segments_of_line (Reading.line?_eq_some_iff.mp hline)
  intro comment hcomment
  obtain ⟨segment, hsegment, rfl⟩ := List.mem_map.mp hcomment
  obtain ⟨-, -, -, hremark, -⟩ := Segment.exists_remark (isLine_comment hsegment)
  exact hremark

namespace Report

theorem length_commentRecords (filename : Text) (l : LogicalLine) :
    (commentRecords filename l).length = l.comments.countP fun comment ↦ !comment.isEmpty := by
  have hcomments := congrArg (List.countP fun comment ↦ !comment.isEmpty)
    (List.zipIdx_map_fst l.lineNumber l.comments)
  rw [commentRecords, List.length_filterMap_eq_countP, ← hcomments, List.countP_map]
  congr 1
  funext entry
  cases hempty : entry.1.isEmpty <;> simp [hempty]

section

variable {o : Options} {filename : Text} {l : LogicalLine} (hname : '\n' ∉ filename)
  (hcomments : ∀ comment ∈ l.comments, '\n' ∉ comment)

include hname

theorem newline_not_mem_place (n : Nat) : '\n' ∉ place filename n := by
  simp [place, ofNat, hname, newline_not_mem_toDigits]

include hcomments

theorem newline_not_mem_commentRecords : ∀ record ∈ commentRecords filename l, '\n' ∉ record := by
  intro record hrecord
  obtain ⟨⟨comment, n⟩, hmem, heq⟩ := List.mem_filterMap.mp hrecord
  have hcomment := hcomments comment (List.fst_mem_of_mem_zipIdx hmem)
  dsimp only at heq
  split at heq
  · cases heq
  · rw [← Option.some.inj heq]
    simp [newline_not_mem_place hname, hcomment]

theorem newline_not_mem_recordsOf : ∀ record ∈ recordsOf o filename l, '\n' ∉ record := by
  rw [recordsOf]
  split
  · simp
  · rw [List.forall_mem_cons]
    constructor
    · simp [lineRecord, newline_not_mem_place hname, newline_not_mem_quote]
    · split
      · exact newline_not_mem_commentRecords hname hcomments
      · simp

end

/-- The report of a run over `t` that has met no error. -/
structure IsReportOf (r : Report) (o : Options) (t filename : Text) (l : Lexer) : Prop where
  logicalLines : r.logicalLines = l.logicalLines.length
  physicalLines : r.physicalLines = (PhysicalLine.cutLines '\n' t).length
  records : r.records = if o.check then [] else l.logicalLines.flatMap fun line ↦
    lineRecord filename line :: if o.comments then commentRecords filename line else []
  /-- One record for each logical line, and one for each comment if comments are asked for. -/
  length : o.check = false → r.records.length = r.logicalLines +
    if o.comments then (l.logicalLines.flatMap (·.comments)).countP fun comment ↦ !comment.isEmpty else 0
  output : (Command.unlines r.records).splitOn '\n' = r.records ++ [[]]
  notices : ∀ notice ∈ r.notices, ¬"Warning: ".toList <+: notice

theorem length_flatMap_recordsOf {o : Options} (hcheck : o.check = false) (filename : Text)
    (lines : List LogicalLine) : (lines.flatMap (recordsOf o filename)).length = lines.length +
      if o.comments then (lines.flatMap (·.comments)).countP fun comment ↦ !comment.isEmpty else 0 := by
  induction lines with
  | nil => simp
  | cons line lines ih =>
    have hrecords : (recordsOf o filename line).length =
        1 + if o.comments then line.comments.countP fun comment ↦ !comment.isEmpty else 0 := by
      rw [recordsOf, hcheck, if_neg Bool.false_ne_true, List.length_cons, Nat.add_comm]
      split
      · rw [length_commentRecords]
      · rfl
    rw [List.flatMap_cons, List.length_append, ih, hrecords, List.flatMap_cons, List.countP_append,
      List.length_cons]
    split <;> omega

theorem not_warning_of_mem_debugLines {o : Options} {lines : List Text} {notice : Text}
    (h : notice ∈ debugLines o lines) : ¬"Warning: ".toList <+: notice := by
  rw [debugLines] at h
  split at h
  · obtain ⟨line, -, rfl⟩ := List.mem_map.mp h
    intro hwarning
    exact absurd (List.cons_prefix_cons.mp hwarning).1 (by decide)
  · cases h

theorem isReportOf_ofFinished (o : Options) (s : Settings) {filename : Text} (hname : '\n' ∉ filename)
    (t : Text) : IsReportOf (ofFinished o filename (Lexer.ofText t s filename).finishedLines
      (PhysicalLine.cutLines '\n' t).length) o t filename (Lexer.ofText t s filename) := by
  have hlength : (Lexer.ofText t s filename).finishedLines.length =
      (Lexer.ofText t s filename).logicalLines.length := by
    rw [← Lexer.map_fst_finishedLines, List.length_map]
  have hrecords : (ofFinished o filename (Lexer.ofText t s filename).finishedLines
      (PhysicalLine.cutLines '\n' t).length).records =
        (Lexer.ofText t s filename).logicalLines.flatMap (recordsOf o filename) := by
    rw [← Lexer.map_fst_finishedLines, List.flatMap_map]
    rfl
  constructor
  · exact hlength
  · rfl
  · rw [hrecords]
    have hrecordsOf : recordsOf o filename = fun line ↦ if o.check then []
        else lineRecord filename line :: if o.comments then commentRecords filename line else [] := rfl
    rw [hrecordsOf]
    cases o.check <;> simp
  · intro hcheck
    rw [hrecords, length_flatMap_recordsOf hcheck, ← hlength]
    rfl
  · apply Command.splitOn_unlines
    rw [hrecords]
    intro record hrecord
    obtain ⟨line, hline, hrecord⟩ := List.mem_flatMap.mp hrecord
    exact newline_not_mem_recordsOf hname (Lexer.newline_not_mem_comments hline) record hrecord
  · intro notice hnotice
    exact not_warning_of_mem_debugLines hnotice

variable {o : Options} {s : Settings} {filename t : Text}

theorem ofText_eq_error_iff {e : ReadError} : ofText o s filename t = .error e ↔
    (Lexer.ofText t s filename).failure? = some e ∨
      (Lexer.ofText t s filename).failure? = none ∧ s.strict ∧ (Lexer.ofText t s filename).isLeftOpen ∧
        e = .located (.openAtEnd filename (PhysicalLine.cutLines '\n' t).length) := by
  rw [ofText_eq]
  cases (Lexer.ofText t s filename).failure? with
  | some e' => simp
  | none =>
    by_cases hopen : s.strict && (Lexer.ofText t s filename).isLeftOpen
    · obtain ⟨hstrict, hleft⟩ := Bool.and_eq_true_iff.mp hopen
      simp [hstrict, hleft, eq_comm]
    · simp only [hopen, Bool.false_eq_true, if_false]
      constructor
      · intro h
        cases h
      · rintro (h | ⟨-, hstrict, hleft, -⟩)
        · cases h
        · exact absurd (Bool.and_eq_true_iff.mpr ⟨hstrict, hleft⟩) hopen

/-- The first logical line that is too long is reported, and else, if that is asked for, that the source ends
while the last one is open; there are no other errors and no warnings. In all other cases the report counts the
lines, and its output shows the logical lines in order, each with its comments behind it. -/
theorem report_exact (hname : '\n' ∉ filename) :
    (∀ e, ofText o s filename t = .error e ↔
      (Lexer.ofText t s filename).failure? = some e ∨
        (Lexer.ofText t s filename).failure? = none ∧ s.strict ∧ (Lexer.ofText t s filename).isLeftOpen ∧
          e = .located (.openAtEnd filename (PhysicalLine.cutLines '\n' t).length)) ∧
    (∀ e, (Lexer.ofText t s filename).failure? = some e →
      ∃ start n, e = .located (.tooLong start s.maxContinuationLines filename n)) ∧
    ∀ report, ofText o s filename t = .ok report →
      IsReportOf report o t filename (Lexer.ofText t s filename) := by
  refine ⟨fun e ↦ ofText_eq_error_iff, fun e ↦ Lexer.exists_tooLong_of_failure?, ?_⟩
  intro report hreport
  rw [ofText_eq] at hreport
  split at hreport
  · cases hreport
  · split at hreport
    · cases hreport
    · rw [← Except.ok.inj hreport]
      exact isReportOf_ofFinished o s hname t

/-- Two statements, of which the second one goes on behind a comment until the source breaks it off. -/
def openText : Text :=
  "x = 1; y &\n\t! c\n  + 'z; &".toList

theorem report_exact_openText :
    '\n' ∉ "a.f90".toList ∧
      ofText { comments := true } ⟨4, 3, true⟩ "a.f90".toList openText =
        .error (.located (.openAtEnd "a.f90".toList 3)) ∧
      ofText { comments := true } ⟨4, 2, true⟩ "a.f90".toList openText =
        .error (.located (.tooLong 1 2 "a.f90".toList 3)) ∧
      ∃ report, ofText { comments := true } ⟨4, 3, false⟩ "a.f90".toList openText = .ok report ∧
        IsReportOf report { comments := true } openText "a.f90".toList
          (Lexer.ofText openText ⟨4, 3, false⟩ "a.f90".toList) := by
  have hname : '\n' ∉ "a.f90".toList := by decide
  have hfailure (strict : Bool) :
      (Lexer.ofText openText ⟨4, 3, strict⟩ "a.f90".toList).failure? = none := by
    cases strict
    · rw [Lexer.failure?, Lexer.steps_of_stepsWithin 3 rfl]
      decide
    · rw [Lexer.failure?, Lexer.steps_of_stepsWithin 3 rfl]
      decide
  have hopen : (Lexer.ofText openText ⟨4, 3, true⟩ "a.f90".toList).isLeftOpen := by
    rw [Lexer.isLeftOpen, Lexer.steps_of_stepsWithin 3 rfl]
    decide
  have hlong : (Lexer.ofText openText ⟨4, 2, true⟩ "a.f90".toList).failure? =
      some (.located (.tooLong 1 2 "a.f90".toList 3)) := by
    rw [Lexer.failure?, Lexer.steps_of_stepsWithin 3 rfl]
    decide
  have hok : ofText { comments := true } ⟨4, 3, false⟩ "a.f90".toList openText =
      .ok (ofFinished { comments := true } "a.f90".toList
        (Lexer.ofText openText ⟨4, 3, false⟩ "a.f90".toList).finishedLines
        (PhysicalLine.cutLines '\n' openText).length) := by
    rw [ofText_eq, hfailure]
    rfl
  exact ⟨hname, ((report_exact hname).1 _).mpr (.inr ⟨hfailure true, rfl, hopen, rfl⟩),
    ((report_exact hname).1 _).mpr (.inl hlong), _, hok, (report_exact hname).2.2 _ hok⟩

end Report

end FreeForm
