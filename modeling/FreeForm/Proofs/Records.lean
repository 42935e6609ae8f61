import FreeForm.Proofs.Numbering
import FreeForm.Report

namespace FreeForm

open Text

theorem Text.count_newline_eq {t : Text} (h : IsLine t) :
    t.count '\n' = if endsWith '\n' t then 1 else 0 := by
  by_cases hends : endsWith '\n' t
  · rw [count_newline_of_endsWith h hends, if_pos hends]
  · obtain ⟨body, hbody, rfl | rfl⟩ := h.exists_eq
    · rw [List.count_eq_zero_of_not_mem hbody, if_neg hends]
    · exact absurd (endsWith_concat body '\n') hends

namespace Segment

variable {segments : List Segment} {s : Segment} {k i : Nat}

theorem count_newline_flatMap_source (h : ∀ s ∈ segments, IsLine s.source) :
    (segments.flatMap source).count '\n' = segments.countP fun s ↦ endsWith '\n' s.source := by
  induction segments with
  | nil => rfl
  | cons s segments ih =>
    obtain ⟨hs, hrest⟩ := List.forall_mem_cons.mp h
    rw [List.flatMap_cons, List.count_append, count_newline_eq hs, ih hrest, List.countP_cons,
      Nat.add_comm]

theorem AreNumbered.lineNumber_of_getElem? (h : AreNumbered k segments)
    (hs : segments[i]? = some s) :
    s.lineNumber = k + ((segments.take i).flatMap source).count '\n' + 1 := by
  induction segments generalizing k i with
  | nil => cases hs
  | cons first segments ih =>
    obtain ⟨hfirst, hrest⟩ := h
    cases i with
    | zero =>
      obtain rfl := Option.some.inj hs
      exact hfirst
    | succ i =>
      rw [ih hrest hs, List.take_succ_cons, List.flatMap_cons, List.count_append]
      omega

/-- Positions count segments, where numbers count lines. -/
theorem AreNumbered.startOf_add (h : AreNumbered k segments) (hlines : ∀ s ∈ segments, IsLine s.source)
    (hs : segments[i]? = some s) : LogicalLine.startOf segments + i =
      s.lineNumber + (segments.take i).countP fun earlier ↦ !endsWith '\n' earlier.source := by
  have hstart := h.startOf (List.ne_nil_of_mem (List.mem_of_getElem? hs))
  have hnumber := h.lineNumber_of_getElem? hs
  have htake : ∀ earlier ∈ segments.take i, IsLine earlier.source := fun earlier hmem ↦
    hlines earlier (List.mem_of_mem_take hmem)
  rw [count_newline_flatMap_source htake] at hnumber
  have hlength : (segments.take i).length = i := by
    obtain ⟨hi, -⟩ := List.getElem?_eq_some_iff.mp hs
    rw [List.length_take]
    omega
  have hsplit := List.length_eq_countP_add_countP (l := segments.take i)
    fun earlier ↦ endsWith '\n' earlier.source
  simp only [Bool.not_eq_true, Bool.decide_eq_false] at hsplit
  omega

end Segment

namespace Lexer

theorem run_eq (l : Lexer) :
    l.run = l.next :: if l.next.1 = .done then [] else l.next.2.run := by
  rw [run]
  by_cases h : l.next.1 = .done <;> simp [h]

theorem exists_numbered_afterCalls (t : Text) (s : Settings) (filename : Text) (n : Nat) :
    ∃ k, ((ofText t s filename).afterCalls n).source.Numbered t k := by
  induction n with
  | zero => exact ⟨0, numbered_ofText t s filename⟩
  | succ n ih =>
    obtain ⟨k, hk⟩ := ih
    exact ⟨_, (Gathered.numbered_gather hk).2.2⟩

theorem startOf_add_of_gather {t : Text} {s : Settings} {filename : Text} {n i : Nat}
    {segment : Segment}
    (hs : ((ofText t s filename).afterCalls n).gather.segments[i]? = some segment) :
    LogicalLine.startOf ((ofText t s filename).afterCalls n).gather.segments + i =
      segment.lineNumber + (((ofText t s filename).afterCalls n).gather.segments.take i).countP
        fun earlier ↦ !endsWith '\n' earlier.source := by
  obtain ⟨k, hk⟩ := exists_numbered_afterCalls t s filename n
  refine (Gathered.numbered_gather hk).1.startOf_add (fun other hother ↦ ?_) hs
  apply (isFrom_of_mem_gather t s filename n other hother).isLine_source
  intro physical hphysical
  exact PhysicalLine.not_mem_dropLast_of_mem_cutLines hphysical

end Lexer

namespace Report

variable {strict : Bool} {l : Lexer} {lines : List Finished}

theorem map_fst_of_finished (h : finished strict l.run = .ok lines) :
    lines.map Prod.fst =
      (List.range lines.length).map fun n ↦ .ofSegments (l.afterCalls n).gather.segments := by
  induction l using Lexer.steps_induction generalizing lines with
  | done l hd =>
    rw [Lexer.run_eq, if_pos hd] at h
    generalize l.next = outcome at h hd
    obtain ⟨reading, l'⟩ := outcome
    obtain rfl : reading = .done := hd
    obtain rfl : [] = lines := Except.ok.inj h
    rfl
  | more l hd ih =>
    rw [Lexer.run_eq, if_neg hd] at h
    have hsegments := @Lexer.segments_of_line l
    have hafter := Lexer.afterCalls_next l
    generalize l.next = outcome at h hd ih hsegments hafter
    obtain ⟨reading, l'⟩ := outcome
    cases reading with
    | done => exact absurd rfl hd
    | failure e => cases h
    | line line =>
      obtain ⟨-, rfl, -⟩ := hsegments rfl
      rw [finished] at h
      split at h
      · cases h
      · cases hrest : finished strict l'.run with
        | error e =>
          rw [hrest] at h
          cases h
        | ok rest =>
          rw [hrest] at h
          obtain rfl := Except.ok.inj h
          rw [List.map_cons, ih hrest, List.length_cons, List.range_succ_eq_map, List.map_cons,
            List.map_map]
          simp only [hafter]
          rfl

variable {o : Options} {s : Settings} {filename t : Text} {report : Report}

theorem exists_finished (h : ofText o s filename t = .ok report) :
    ∃ lines, finished s.strict (Lexer.ofText t s filename).run = .ok lines ∧
      report.records = lines.flatMap (recordsOf o filename ·.1) ∧
      report.logicalLines = lines.length := by
  rw [ofText] at h
  dsimp only at h
  cases hlines : finished s.strict (Lexer.ofText t s filename).run with
  | error e =>
    rw [hlines] at h
    cases h
  | ok lines =>
    rw [hlines] at h
    dsimp only at h
    refine ⟨lines, rfl, ?_⟩
    split at h
    · obtain rfl := Except.ok.inj h
      exact ⟨rfl, rfl⟩
    · split at h
      · cases h
      · obtain rfl := Except.ok.inj h
        exact ⟨rfl, rfl⟩

theorem commentRecords_ofSegments (filename : Text) (segments : List Segment) :
    commentRecords filename (.ofSegments segments) =
      (segments.zipIdx (LogicalLine.startOf segments)).filterMap fun (segment, n) ↦
        if segment.remark.isEmpty then none
        else some (place filename n ++ List.replicate 3 ' ' ++ segment.remark) := by
  simp only [commentRecords, LogicalLine.ofSegments, List.zipIdx_map, List.filterMap_map]
  rfl

/-- The record of a comment bears the number of the physical line that the comment is cut from, plus the
number of segments of the logical line that come before it and are not the last of their physical line. -/
theorem comment_record_number (hcomments : o.comments) (hcheck : o.check = false)
    (h : ofText o s filename t = .ok report) :
    ∃ segments : Nat → List Segment,
      (∀ n, segments n = ((Lexer.ofText t s filename).afterCalls n).gather.segments) ∧
        report.records = (List.range report.logicalLines).flatMap (fun n ↦
          lineRecord filename (.ofSegments (segments n)) ::
            ((segments n).zipIdx (LogicalLine.startOf (segments n))).filterMap
              fun (segment, number) ↦
                if segment.remark.isEmpty then none
                else some (place filename number ++ List.replicate 3 ' ' ++ segment.remark)) ∧
        ∀ n i segment, (segments n)[i]? = some segment →
          segment.IsFrom (PhysicalLine.cutLines '\n' t) s.tabWidth ∧
            LogicalLine.startOf (segments n) + i = segment.lineNumber +
              ((segments n).take i).countP fun earlier ↦ !endsWith '\n' earlier.source := by
  refine ⟨_, fun _ ↦ rfl, ?_, fun n i segment hs ↦ ⟨?_, Lexer.startOf_add_of_gather hs⟩⟩
  · obtain ⟨lines, hlines, hrecords, hlength⟩ := exists_finished h
    have hmap := map_fst_of_finished hlines
    have hrecordsOf : report.records = (lines.map Prod.fst).flatMap (recordsOf o filename) := by
      rw [hrecords, List.flatMap_map]
    rw [hrecordsOf, hmap, List.flatMap_map, hlength]
    simp only [recordsOf, hcheck, hcomments, commentRecords_ofSegments, Bool.false_eq_true, if_false,
      if_true]
  · exact Lexer.isFrom_of_mem_gather t s filename n segment (List.mem_of_getElem? hs)

def emptyStatementText : Text :=
  "x = &\n; ! c\n 1\n".toList

def emptyStatementReport : Report :=
  ⟨["a.f90:1: \"x = 1\\n\"".toList, "a.f90:3:   ! c".toList], 1, 3, []⟩

theorem ofText_emptyStatementText :
    ofText { comments := true } ⟨8, 10000, false⟩ "a.f90".toList emptyStatementText =
      .ok emptyStatementReport := by
  rw [ofText, Lexer.run_eq, Lexer.run_eq]
  rfl

theorem comment_record_number_emptyStatement :
    ofText { comments := true } ⟨8, 10000, false⟩ "a.f90".toList emptyStatementText =
        .ok emptyStatementReport ∧
      ∃ segments : List Segment,
        segments = (Lexer.ofText emptyStatementText ⟨8, 10000, false⟩ "a.f90".toList).gather.segments ∧
        (segments.map fun s ↦ (s.remark, s.lineNumber)) =
          [([], 1), ([], 2), ("! c".toList, 2), ([], 3)] ∧
        ∀ i segment, segments[i]? = some segment →
          LogicalLine.startOf segments + i = segment.lineNumber +
            (segments.take i).countP fun earlier ↦ !endsWith '\n' earlier.source := by
  obtain ⟨segments, hsegments, -, hnumber⟩ :=
    comment_record_number rfl rfl ofText_emptyStatementText
  refine ⟨ofText_emptyStatementText, segments 0, hsegments 0, ?_, fun i segment hs ↦ (hnumber 0 i segment hs).2⟩
  rw [hsegments]
  rfl

/-- The line that the record names does not have the comment. -/
theorem not_comment_record_number_emptyStatement :
    ofText { comments := true } ⟨8, 10000, false⟩ "a.f90".toList emptyStatementText =
        .ok emptyStatementReport ∧
      ¬∀ n comment, comment ≠ [] →
        place "a.f90".toList n ++ List.replicate 3 ' ' ++ comment ∈ emptyStatementReport.records →
          ∃ physical, (PhysicalLine.cutLines '\n' emptyStatementText)[n - 1]? = some physical ∧
            comment <:+: physical := by
  refine ⟨ofText_emptyStatementText, fun h ↦ ?_⟩
  obtain ⟨physical, hphysical, hcomment⟩ := h 3 "! c".toList (by decide) (by decide)
  obtain rfl : " 1\n".toList = physical := Option.some.inj hphysical
  revert hcomment
  decide

end Report

end FreeForm
