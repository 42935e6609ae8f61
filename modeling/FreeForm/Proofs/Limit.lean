import FreeForm.Proofs.Lossless
import FreeForm.Proofs.Progress

namespace FreeForm

namespace Gathered

variable {tabWidth room room' : Nat} {c : Continuation} {r : Region} {source : Source}

theorem length_segments_le (h : (gather tabWidth room c r source).ending ≠ .tooLong) :
    (gather tabWidth room c r source).segments.length ≤ room := by
  induction room, c, r, source using gather_induction tabWidth with
  | exhausted => simp [gather_exhausted]
  | undecodable => simp [gather_undecodable]
  | text room c r t unread n ih =>
    rw [gather_text] at h ⊢
    exact ih h
  | tooLong => simp [gather_tooLong] at h
  | complete room c r unread n s queue hc => simp [gather_complete _ _ _ _ _ _ hc]
  | more room c r unread n s queue hc ih =>
    rw [gather_more _ _ _ _ _ _ hc] at h ⊢
    exact Nat.succ_le_succ (ih h)

theorem gather_of_length_le (h : (gather tabWidth room c r source).ending ≠ .tooLong)
    (hle : (gather tabWidth room c r source).segments.length ≤ room') :
    gather tabWidth room' c r source = gather tabWidth room c r source := by
  induction room, c, r, source using gather_induction tabWidth generalizing room' with
  | exhausted => rw [gather_exhausted, gather_exhausted]
  | undecodable => rw [gather_undecodable, gather_undecodable]
  | text room c r t unread n ih =>
    rw [gather_text] at h hle
    rw [gather_text, gather_text]
    exact ih h hle
  | tooLong => simp [gather_tooLong] at h
  | complete room c r unread n s queue hc =>
    rw [gather_complete _ _ _ _ _ _ hc] at hle ⊢
    rw [List.length_singleton] at hle
    obtain ⟨room', rfl⟩ : ∃ k, room' = k + 1 := ⟨room' - 1, by omega⟩
    rw [gather_complete _ _ _ _ _ _ hc]
  | more room c r unread n s queue hc ih =>
    rw [gather_more _ _ _ _ _ _ hc] at h hle ⊢
    rw [segments_push, List.length_cons] at hle
    obtain ⟨room', rfl⟩ : ∃ k, room' = k + 1 := ⟨room' - 1, by omega⟩
    rw [gather_more _ _ _ _ _ _ hc, ih h (by omega)]

theorem tooLong_iff (h : (gather tabWidth room' c r source).ending ≠ .tooLong) :
    (gather tabWidth room c r source).ending = .tooLong ↔
      room < (gather tabWidth room' c r source).segments.length := by
  constructor
  · intro hlong
    by_contra hle
    rw [gather_of_length_le h (Nat.le_of_not_lt hle)] at hlong
    exact h hlong
  · intro hlt
    by_contra hshort
    have hle := length_segments_le hshort
    have hle' := length_segments_le h
    rw [gather_of_length_le hshort (by omega)] at hlt
    omega

end Gathered

namespace Lexer

def limited (limit : Nat) (l : Lexer) : Lexer :=
  { l with settings := { l.settings with maxContinuationLines := limit } }

variable {l : Lexer} {limit : Nat}

theorem length_lines_next (h : l.next.1.isFailure = false) :
    l.next.1.lines.length = l.gather.segments.length := by
  have hlines : l.next.1.lines = l.gather.segments.map Segment.source := lines_readingOf h
  rw [hlines, List.length_map]

theorem ending_ne_of_isFailure (h : l.next.1.isFailure = false) : l.gather.ending ≠ .tooLong := by
  intro he
  rw [isFailure_iff.mpr (Or.inr he)] at h
  cases h

theorem next_limited (h : l.gather.ending ≠ .tooLong)
    (hle : l.gather.segments.length ≤ limit) :
    (l.limited limit).next = (l.next.1, l.next.2.limited limit) := by
  have hg : (l.limited limit).gather = l.gather := Gathered.gather_of_length_le h hle
  have hreading : (l.limited limit).readingOf l.gather = l.readingOf l.gather := by
    cases he : l.gather.ending with
    | tooLong => exact absurd he h
    | noSegment => exact absurd he Gathered.ending_ne_noSegment
    | _ => simp only [readingOf, he]
  simp only [next, hg, hreading]
  rfl

theorem steps_limited_of_not_done (h : l.next.1.isFailure = false)
    (hle : l.gather.segments.length ≤ limit) (hd : l.next.1 ≠ .done) :
    (l.limited limit).steps = l.step :: (l.next.2.limited limit).steps := by
  have hnext := next_limited (ending_ne_of_isFailure h) hle
  rw [steps_eq, step, hnext, if_neg hd]
  rfl

theorem steps_limited_of_done (hd : l.next.1 = .done) : (l.limited limit).steps = l.steps := by
  obtain ⟨he, hs⟩ := (done_iff_gather l).mp hd
  have hnext : (l.limited limit).next = (l.next.1, l.next.2.limited limit) :=
    next_limited (by simp [he]) (by simp [hs])
  rw [steps_eq, steps_eq l, step, hnext, if_pos hd, if_pos hd]
  rfl

theorem steps_limited_until_failure (hle : l.settings.maxContinuationLines ≤ limit) :
    l.steps.takeWhile (fun s ↦ !s.reading.isFailure) <+: (l.limited limit).steps := by
  induction l using steps_induction with
  | done l hd =>
    rw [steps_limited_of_done hd]
    exact List.takeWhile_prefix _
  | more l hd ih =>
    rw [steps_eq, if_neg hd]
    by_cases hf : l.next.1.isFailure
    · rw [List.takeWhile_cons_of_neg (by simp [step, hf])]
      exact List.nil_prefix
    · rw [Bool.not_eq_true] at hf
      have hlen := Gathered.length_segments_le (ending_ne_of_isFailure hf)
      rw [List.takeWhile_cons_of_pos (by simp [step, hf]),
        steps_limited_of_not_done hf (hlen.trans hle) hd]
      exact (List.prefix_cons_inj _).mpr (ih hle)

theorem steps_limited (h : ∀ s ∈ l.steps, s.reading.isFailure = false)
    (hle : ∀ s ∈ l.steps, s.reading.lines.length ≤ limit) : (l.limited limit).steps = l.steps := by
  induction l using steps_induction with
  | done l hd => exact steps_limited_of_done hd
  | more l hd ih =>
    rw [steps_eq, if_neg hd] at h hle
    obtain ⟨hf, hrest⟩ := List.forall_mem_cons.mp h
    obtain ⟨hlen, hlens⟩ := List.forall_mem_cons.mp hle
    have hlen' := length_lines_next hf
    rw [steps_limited_of_not_done hf (hlen' ▸ hlen) hd, ih hrest hlens, steps_eq l, if_neg hd]

theorem findIdx?_steps_limited (h : ∀ s ∈ l.steps, s.reading.isFailure = false) (limit : Nat) :
    (l.limited limit).steps.findIdx? (fun s ↦ s.reading.isFailure) =
      l.steps.findIdx? fun s ↦ limit < s.reading.lines.length := by
  induction l using steps_induction with
  | done l hd =>
    rw [steps_limited_of_done hd, steps_eq, if_pos hd]
    simp [step, hd, Reading.isFailure, Reading.lines]
  | more l hd ih =>
    rw [steps_eq, if_neg hd] at h
    obtain ⟨hf, hrest⟩ := List.forall_mem_cons.mp h
    have hf' : l.next.1.isFailure = false := hf
    have hlen : l.step.reading.lines.length = l.gather.segments.length := length_lines_next hf
    have hshort := ending_ne_of_isFailure hf'
    rw [steps_eq l, if_neg hd, List.findIdx?_cons, hlen]
    by_cases hle : l.gather.segments.length ≤ limit
    · have hlt : ¬limit < l.gather.segments.length := by omega
      rw [steps_limited_of_not_done hf' hle hd, List.findIdx?_cons, hf, ih hrest]
      simp [hlt]
    · -- The two runs part here: this logical line has too many segments for the limit.
      have hlt : limit < l.gather.segments.length := by omega
      have hlong : (l.limited limit).gather.ending = .tooLong :=
        (Gathered.tooLong_iff hshort).mpr hlt
      have hfail : (l.limited limit).step.reading.isFailure := isFailure_iff.mpr (Or.inr hlong)
      rw [steps_eq, List.findIdx?_cons, hfail]
      simp [hlt]

theorem length_lines_of_mem_steps :
    ∀ s ∈ l.steps, ∀ line, s.reading = .line line →
      1 ≤ line.lines.length ∧ line.lines.length ≤ l.settings.maxContinuationLines := by
  have hfirst (l : Lexer) (line : LogicalLine) (h : l.step.reading = .line line) :
      1 ≤ line.lines.length ∧ line.lines.length ≤ l.settings.maxContinuationLines := by
    obtain ⟨hne, rfl, he⟩ := segments_of_line h
    have hshort : l.gather.ending ≠ .tooLong := by
      rcases he with he | he <;> simp [he]
    have hlen := Gathered.length_segments_le hshort
    have hpos := List.length_pos_of_ne_nil hne
    rw [LogicalLine.ofSegments, List.length_map]
    exact ⟨hpos, hlen⟩
  induction l using steps_induction with
  | done l hd =>
    rw [steps_eq, if_pos hd]
    simpa using hfirst l
  | more l hd ih =>
    rw [steps_eq, if_neg hd]
    exact List.forall_mem_cons.mpr ⟨hfirst l, ih⟩

end Lexer

theorem Statement.length_ofSights_le (sights : List Sight) :
    (ofSights sights).length ≤ sights.length + 1 := by
  induction sights using cut_induction cutsBehind with
  | whole sights h => simp [ofSights_of_forall h]
  | cut piece a rest h ha ih =>
    obtain ⟨c, shown⟩ := a
    obtain ⟨rfl, rfl⟩ : shown = true ∧ c = ';' := by simpa [cutsBehind] using ha
    rw [ofSights_append_cons h, List.length_append, List.length_cons, List.length_cons]
    split
    · simp
    · omega

theorem Segment.length_ofLine_le (line : Text) (lineNumber : Nat) (inDirective : Bool) (r : Region) :
    (ofLine line lineNumber inDirective r).1.length ≤ line.length + 1 := by
  have hplace (sentinel : Option Sentinel) (newline : Bool) (statements : List Statement) :
      (place sentinel lineNumber newline statements).length = statements.length := by
    cases statements <;> simp [place]
  cases inDirective with
  | true => simp [ofLine_directive, hplace]
  | false =>
    have hcut := congrArg List.length (Sentinel.textOf_cut_append line)
    have hsights := congrArg List.length
      (Region.map_fst_sights r.carried false (Sentinel.cut line).2 [])
    have hle := Statement.length_ofSights_le (Region.sights r.carried false (Sentinel.cut line).2 [])
    rw [List.length_append] at hcut
    rw [List.length_map] at hsights
    rw [ofLine_code, hplace, Statement.ofText_eq]
    refine hle.trans ?_
    omega

/-- No fewer segments are still to come. -/
def Source.capacity (tabWidth : Nat) (source : Source) : Nat :=
  source.unread.foldr (fun line n ↦ (line.expanded tabWidth).length + 1 + n) 0 + source.queue.length

namespace Gathered

variable {tabWidth room : Nat} {c : Continuation} {r : Region} {source : Source}

theorem capacity_ofLine_le (t : Text) (n : Nat) (inDirective : Bool) (r : Region)
    (unread : List PhysicalLine) :
    Source.capacity tabWidth
        ⟨unread, n + 1, (Segment.ofLine (Text.expandTabs tabWidth t) (n + 1) inDirective r).1⟩ ≤
      Source.capacity tabWidth ⟨.text t :: unread, n, []⟩ := by
  have hle := Segment.length_ofLine_le (Text.expandTabs tabWidth t) (n + 1) inDirective r
  simp only [Source.capacity, List.foldr_cons, PhysicalLine.expanded, List.length_nil]
  omega

theorem capacity_gather_le :
    (gather tabWidth room c r source).source.capacity tabWidth ≤ source.capacity tabWidth := by
  induction room, c, r, source using gather_induction tabWidth with
  | exhausted => rw [gather_exhausted]
  | undecodable room c r unread n =>
    rw [gather_undecodable]
    simp [Source.capacity]
  | text room c r t unread n ih =>
    rw [gather_text]
    exact ih.trans (capacity_ofLine_le t n c.directive r unread)
  | tooLong =>
    rw [gather_tooLong]
    simp [Source.capacity]
  | complete room c r unread n s queue hc =>
    rw [gather_complete _ _ _ _ _ _ hc]
    simp [Source.capacity]
  | more room c r unread n s queue hc ih =>
    rw [gather_more _ _ _ _ _ _ hc]
    refine ih.trans ?_
    simp [Source.capacity]

theorem ending_ne_tooLong (h : source.capacity tabWidth ≤ room) :
    (gather tabWidth room c r source).ending ≠ .tooLong := by
  induction room, c, r, source using gather_induction tabWidth with
  | exhausted => simp [gather_exhausted]
  | undecodable => simp [gather_undecodable]
  | text room c r t unread n ih =>
    rw [gather_text]
    exact ih ((capacity_ofLine_le t n c.directive r unread).trans h)
  | tooLong => simp [Source.capacity] at h
  | complete room c r unread n s queue hc => simp [gather_complete _ _ _ _ _ _ hc]
  | more room c r unread n s queue hc ih =>
    rw [gather_more _ _ _ _ _ _ hc]
    refine ih ?_
    simp only [Source.capacity, List.length_cons] at h ⊢
    omega

end Gathered

namespace Lexer

variable {l : Lexer}

theorem isFailure_of_capacity_le (hu : .undecodable ∉ l.source.unread)
    (hc : l.source.capacity l.settings.tabWidth ≤ l.settings.maxContinuationLines) :
    ∀ s ∈ l.steps, s.reading.isFailure = false := by
  have hfirst (l : Lexer) (hu : .undecodable ∉ l.source.unread)
      (hc : l.source.capacity l.settings.tabWidth ≤ l.settings.maxContinuationLines) :
      l.step.reading.isFailure = false := by
    rw [← Bool.not_eq_true]
    intro hf
    rcases isFailure_iff.mp hf with he | he
    · exact hu (Gathered.undecodable_mem_unread he)
    · exact Gathered.ending_ne_tooLong hc he
  induction l using steps_induction with
  | done l hd =>
    rw [steps_eq, if_pos hd]
    simpa using hfirst l hu hc
  | more l hd ih =>
    rw [steps_eq, if_neg hd]
    refine List.forall_mem_cons.mpr ⟨hfirst l hu hc, ih (fun hmem ↦ ?_) ?_⟩
    · exact hu (Gathered.unread_gather_suffix.subset hmem)
    · exact Gathered.capacity_gather_le.trans hc

/-- A limit only rejects. Two runs agree up to the first failure under the smaller limit, and in full
if there is none; and a run fails exactly where, out of reach of the limit, a logical line has more
segments. So no logical line has more than the limit allows, failures or not. -/
theorem limited_only_rejects (t : Text) (s : Settings) (filename : Text) (m : Nat) :
    (∀ m', m ≤ m' →
        ((ofText t s filename).limited m).steps.takeWhile (fun step ↦ !step.reading.isFailure) <+:
            ((ofText t s filename).limited m').steps ∧
          ((∀ step ∈ ((ofText t s filename).limited m).steps, step.reading.isFailure = false) →
            ((ofText t s filename).limited m').steps = ((ofText t s filename).limited m).steps)) ∧
      (∃ bound, ∀ limit, bound ≤ limit →
        (∀ step ∈ ((ofText t s filename).limited limit).steps, step.reading.isFailure = false) ∧
          ((ofText t s filename).limited m).steps.findIdx? (fun step ↦ step.reading.isFailure) =
            ((ofText t s filename).limited limit).steps.findIdx? fun step ↦
              m < step.reading.lines.length) ∧
      ∀ step ∈ ((ofText t s filename).limited m).steps, ∀ line, step.reading = .line line →
        1 ≤ line.lines.length ∧ line.lines.length ≤ m := by
  have hu : .undecodable ∉ (ofText t s filename).source.unread := by
    simp [ofText, ofLines, Source.ofLines, PhysicalLine.ofText]
  have hlength := length_lines_of_mem_steps (l := (ofText t s filename).limited m)
  refine ⟨fun m' hle ↦ ⟨steps_limited_until_failure (l := (ofText t s filename).limited m) hle, ?_⟩,
    ⟨(ofText t s filename).source.capacity s.tabWidth, fun limit hle ↦ ?_⟩, hlength⟩
  · intro h
    refine steps_limited h fun step hstep ↦ ?_
    cases hr : step.reading with
    | line line => exact (hlength step hstep line hr).2.trans hle
    | failure | done => exact Nat.zero_le _
  · have h := isFailure_of_capacity_le (l := (ofText t s filename).limited limit) hu hle
    exact ⟨h, findIdx?_steps_limited h m⟩

theorem limited_only_rejects_continued :
    ((ofText "a; b &\nc\n".toList ⟨8, 0, false⟩ unnamed).limited 1).steps.findIdx?
        (fun step ↦ step.reading.isFailure) = some 1 ∧
      ((ofText "a; b &\nc\n".toList ⟨8, 0, false⟩ unnamed).limited 1).steps.takeWhile
          (fun step ↦ !step.reading.isFailure) <+:
        ((ofText "a; b &\nc\n".toList ⟨8, 0, false⟩ unnamed).limited 2).steps ∧
      ∃ bound, ∀ limit, bound ≤ limit →
        ((ofText "a; b &\nc\n".toList ⟨8, 0, false⟩ unnamed).limited limit).steps.findIdx?
          (fun step ↦ 1 < step.reading.lines.length) = some 1 := by
  obtain ⟨hagree, ⟨bound, hbound⟩, -⟩ :=
    limited_only_rejects "a; b &\nc\n".toList ⟨8, 0, false⟩ unnamed 1
  have hfail : ((ofText "a; b &\nc\n".toList ⟨8, 0, false⟩ unnamed).limited 1).steps.findIdx?
      (fun step ↦ step.reading.isFailure) = some 1 := by
    rw [steps_of_stepsWithin 9 rfl]
    rfl
  refine ⟨hfail, (hagree 2 (by decide)).1, bound, fun limit hle ↦ ?_⟩
  rw [← (hbound limit hle).2]
  exact hfail

end Lexer

end FreeForm
