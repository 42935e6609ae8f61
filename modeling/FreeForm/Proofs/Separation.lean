import FreeForm.Proofs.Composition
import FreeForm.Proofs.Edges
import FreeForm.Proofs.Sights

namespace FreeForm

open Text Region

/-- The characters that mean something to a scan of code, or are read in a way of their own. -/
def Text.specials : List Char :=
  ['\'', '"', ';', '&', '!', '#', '$', '@', '\t', '\n']

namespace Statement

theorem ofText_plain_append {a : Text} (h : ∀ c ∈ a, Marker.isPlain c ∧ c ≠ ';') (t : Text) :
    ofText (a ++ ';' :: t) .code =
      (⟨a, true, []⟩ :: if t.isEmpty then [] else (ofText t .code).1, (ofText t .code).2) := by
  have hplain : ∀ c ∈ a ++ [';'], Marker.isPlain c := by
    intro c hc
    rcases List.mem_append.mp hc with hc | hc
    · exact (h c hc).1
    · rw [List.mem_singleton.mp hc]
      rfl
  have hcut : ∀ b ∈ a.map fun c ↦ (c, true), cutsBehind b = false := by
    intro b hb
    obtain ⟨c, hc, rfl⟩ := List.mem_map.mp hb
    simpa [cutsBehind] using (h c hc).2
  have hempty : (sights .code false t []).isEmpty = t.isEmpty := by
    cases t <;> rfl
  obtain ⟨hwalk, hsights⟩ := walk_sights_of_isPlain hplain (t ++ [])
  have hsplit : a ++ ';' :: t = (a ++ [';']) ++ t := by simp
  have hwalk' : walk .code false (a ++ ';' :: t) [] = walk .code false t [] := by
    rw [hsplit, walk_append, hwalk]
  have hsights' : sights .code false (a ++ ';' :: t) [] =
      (a.map fun c ↦ (c, true)) ++ (';', true) :: sights .code false t [] := by
    rw [hsplit, sights_append, hwalk, hsights]
    simp
  rw [ofText_eq, ofText_eq]
  simp only [carried] at hwalk' hsights' ⊢
  rw [hwalk', hsights', ofSights_append_cons hcut, hempty, List.map_map]
  simp [Function.comp_def]

end Statement

namespace Segment

variable {a t : Text} (ha : ∀ c ∈ a, c ∉ specials)
  (ht : (Sentinel.cut t).1 = none)
include ha ht

theorem ofLine_plain_append (lineNumber : Nat) : ∃ s : Segment,
    s.code = a ∧ s.comment = [] ∧ s.source = a ++ [';'] ∧
      ofLine (a ++ ';' :: t) lineNumber false .code =
        (s :: if t.isEmpty then [] else (ofLine t lineNumber false .code).1,
          (ofLine t lineNumber false .code).2) := by
  have hplain : ∀ c ∈ a, Marker.isPlain c ∧ c ≠ ';' := by
    intro c hc
    have hspecial : c ∉ specials := ha c hc
    simp only [specials, List.mem_cons, List.not_mem_nil, not_or] at hspecial
    simp [Marker.isPlain, Marker.isSigil, hspecial]
  have hcut : (Sentinel.cut (a ++ ';' :: t)).1 = none := by
    apply Sentinel.cut_fst_append_cons
    · exact Sentinel.cut_fst_of_not_mem fun h ↦ absurd (ha '!' h) (by decide)
    · rfl
    · decide
  have hend : t ≠ [] → endsWith '\n' (a ++ ';' :: t) = endsWith '\n' t := by
    intro hne
    obtain ⟨c, t, rfl⟩ := List.exists_cons_of_ne_nil hne
    simp [endsWith, List.getLast?_append, List.getLast?_cons_cons]
  refine ⟨⟨⟨a, true, []⟩, none, lineNumber, endsWith '\n' (a ++ ';' :: t)⟩, rfl, rfl, ?_, ?_⟩
  · simp [source, Statement.text, Sentinel.textOf]
  · rw [ofLine_code, ofLine_code, Sentinel.cut_eq_of_fst hcut, Sentinel.cut_eq_of_fst ht,
      Statement.ofText_plain_append hplain, place_none, place_none]
    by_cases hne : t = []
    · simp [hne]
    · simp [hne, hend hne]

end Segment

theorem Segment.carried_ofLine {t : Text} (ht : (Sentinel.cut t).1 = none) (lineNumber : Nat) :
    (ofLine t lineNumber false .code).2 =
      (Scanner.ofLine t ⟨true, true⟩).drain.2.region.carried := by
  rw [ofLine_code, Sentinel.cut_eq_of_fst ht, Statement.ofText_eq, Scanner.region_drain_ofLine]
  rfl

theorem Segment.ofLine_of_isQuoted {t : Text} (ht : (Sentinel.cut t).1 = none)
    (hq : (Scanner.ofLine t ⟨true, true⟩).drain.2.region.isQuoted) (lineNumber : Nat) :
    (ofLine t lineNumber false .code).2.IsProper ∧ (ofLine t lineNumber false .code).2.isQuoted ∧
      ∀ s ∈ (ofLine t lineNumber false .code).1, s.comment = [] := by
  have hwalk := Scanner.region_drain_ofLine t ⟨true, true⟩
  rw [hwalk] at hq
  have hne : (walk .code false t []).1 ≠ .comment := by
    intro h
    rw [h] at hq
    cases hq
  have hcarried : (walk .code false t []).1.carried = (walk .code false t []).1 :=
    carried_of_ne_comment hne
  rw [carried_ofLine ht, hwalk, hcarried]
  refine ⟨IsProper.walk (r := .code) trivial _ _ _, hq, ?_⟩
  rw [ofLine_code, Sentinel.cut_eq_of_fst ht, place_none, Statement.ofText_eq]
  intro s hs
  obtain ⟨statement, hmem, rfl⟩ := List.mem_map.mp hs
  exact Statement.comment_of_mem_ofSights hne statement hmem

theorem Continuation.directive_foldl {segments : List Segment} (h : ∀ s ∈ segments, s.comment = [])
    (c : Continuation) : (segments.foldl after c).directive = c.directive := by
  induction segments generalizing c with
  | nil => rfl
  | cons s segments ih =>
    rw [List.foldl_cons, ih fun t ht ↦ h t (by simp [ht])]
    simp [after, h s (by simp)]

def Source.behind (line : Text) (unread : List PhysicalLine) : Source :=
  ⟨unread, 1, (Segment.ofLine line 1 false .code).1⟩

namespace Lexer

/-- The statement before the semicolon is a logical line of its own, and what follows is lexed as if
it stood alone. -/
def SplitsOff (s : Settings) (filename a t : Text) : Prop :=
  ∃ l : LogicalLine, l.lines = [a ++ [';']] ∧
    (ofText (a ++ ';' :: t) s filename).steps =
      ⟨.line l, 1, false⟩ :: (ofText t s filename).steps

/-- The first logical line takes up all of the line `l` and goes on behind it, and a literal or span
is open where `l` ends. -/
def GoesOnQuoted (s : Settings) (filename l : Text) : Prop :=
  (ofText (l ++ ['\n']) s filename).next.2.truncated ∧
    (Scanner.ofLine (expandTabs s.tabWidth (l ++ ['\n'])) ⟨true, true⟩).drain.2.region.isQuoted

variable {s : Settings} {filename a l : Text} {unread : List PhysicalLine}

theorem gather_text (t : Text) :
    gather ⟨s, filename, ⟨.text t :: unread, 0, []⟩, false⟩ =
      Gathered.gather s.tabWidth s.maxContinuationLines .closed
        (Segment.ofLine (expandTabs s.tabWidth t) 1 false .code).2
        (.behind (expandTabs s.tabWidth t) unread) :=
  Gathered.gather_text _ _ _ _ _ _ _

section

variable (ha : ∀ c ∈ a, c ∉ specials) (hm : 1 ≤ s.maxContinuationLines)
include ha hm

variable (filename unread) in
theorem steps_plain_append {t : Text} (ht : (Sentinel.cut (expandTabs s.tabWidth t)).1 = none) :
    ∃ first : LogicalLine, first.lines = [a ++ [';']] ∧
      steps ⟨s, filename, ⟨.text (a ++ ';' :: t) :: unread, 0, []⟩, false⟩ =
        ⟨.line first, 1, false⟩ ::
          if expandTabs s.tabWidth t = [] then steps ⟨s, filename, ⟨unread, 1, []⟩, false⟩
          else steps ⟨s, filename, .behind (expandTabs s.tabWidth t) unread, false⟩ := by
  obtain ⟨first, hcode, hcomment, hsource, hline⟩ := Segment.ofLine_plain_append ha ht 1
  obtain ⟨room, hroom⟩ : ∃ room, s.maxContinuationLines = room + 1 :=
    ⟨_, (Nat.sub_add_cancel hm).symm⟩
  have htab : expandTabs s.tabWidth (a ++ ';' :: t) = a ++ ';' :: expandTabs s.tabWidth t := by
    rw [expandTabs_append, expandTabs_of_not_mem _ fun h ↦ absurd (ha '\t' h) (by decide)]
    rfl
  have hopen : (Continuation.closed.after first).isOpen = false := by
    have hamp : endsWith '&' first.trimmed = false := by
      apply not_endsWith_of_not_mem
      intro h
      rw [Segment.trimmed, hcode] at h
      exact absurd (ha '&' (mem_of_mem_trim h)) (by decide)
    simp [Continuation.after, Continuation.isOpen, Continuation.closed, hcomment, hamp]
  have hg : gather ⟨s, filename, ⟨.text (a ++ ';' :: t) :: unread, 0, []⟩, false⟩ =
      ⟨[first], .complete, if expandTabs s.tabWidth t = [] then ⟨unread, 1, []⟩
        else .behind (expandTabs s.tabWidth t) unread⟩ := by
    rw [gather_text, htab, Source.behind, hline, hroom, Gathered.gather_complete _ _ _ _ _ _ hopen]
    by_cases he : expandTabs s.tabWidth t = [] <;> simp [he, Source.behind]
  refine ⟨.ofSegments [first], by simp [LogicalLine.ofSegments, hsource], ?_⟩
  rw [steps_eq, step]
  simp only [next, hg, readingOf]
  by_cases he : expandTabs s.tabWidth t = [] <;> simp [he, linesRead, Source.behind]

theorem splitsOff_iff_steps {t u : Text} (hu : (Sentinel.cut (expandTabs s.tabWidth u)).1 = none)
    (hne : expandTabs s.tabWidth u ≠ [])
    (hsplit : ofText (a ++ ';' :: t) s filename =
      ⟨s, filename, ⟨.text (a ++ ';' :: u) :: unread, 0, []⟩, false⟩)
    (halone : ofText t s filename = ⟨s, filename, ⟨.text u :: unread, 0, []⟩, false⟩) :
    SplitsOff s filename a t ↔
      steps ⟨s, filename, .behind (expandTabs s.tabWidth u) unread, false⟩ =
        steps ⟨s, filename, ⟨.text u :: unread, 0, []⟩, false⟩ := by
  obtain ⟨first, hlines, hsteps⟩ := steps_plain_append filename unread ha hm hu
  rw [if_neg hne] at hsteps
  rw [SplitsOff, hsplit, halone, hsteps]
  constructor
  · rintro ⟨_, -, h⟩
    exact (List.cons.inj h).2
  · intro h
    exact ⟨first, hlines, by rw [h]⟩

end

theorem steps_behind {t : Text}
    (h : Gathered.gather s.tabWidth s.maxContinuationLines .closed .code
        (.behind (expandTabs s.tabWidth t) unread) =
      Gathered.gather s.tabWidth s.maxContinuationLines .closed
        (Segment.ofLine (expandTabs s.tabWidth t) 1 false .code).2
        (.behind (expandTabs s.tabWidth t) unread)) :
    steps ⟨s, filename, .behind (expandTabs s.tabWidth t) unread, false⟩ =
      steps ⟨s, filename, ⟨.text t :: unread, 0, []⟩, false⟩ :=
  steps_eq_of_gather_eq rfl rfl (h.trans (gather_text t).symm)

theorem truncated_iff (hl : '\n' ∉ l) :
    (ofText (l ++ ['\n']) s filename).next.2.truncated ↔
      (Gathered.gather s.tabWidth s.maxContinuationLines .closed .code
        (.behind (expandTabs s.tabWidth (l ++ ['\n'])) [])).ending = .exhausted := by
  have hg : (ofText (l ++ ['\n']) s filename).gather =
      Gathered.gather s.tabWidth s.maxContinuationLines .closed .code
        (.behind (expandTabs s.tabWidth (l ++ ['\n'])) []) := by
    rw [ofText_append_cons s filename hl, Source.behind, Gathered.gather_region .code]
    exact gather_text _
  simp only [next, hg]
  constructor
  · intro h
    exact (by simpa using h : _ ∧ _).1
  · intro he
    have hne : (Gathered.gather s.tabWidth s.maxContinuationLines .closed .code
        (.behind (expandTabs s.tabWidth (l ++ ['\n'])) [])).segments ≠ [] := by
      intro hs
      have hq := congrArg Source.queue (Gathered.source_eq_of_segments_eq_nil he hs)
      exact Segment.ofLine_ne_nil (expandTabs s.tabWidth (l ++ ['\n'])) 1 false .code hq
    rw [he]
    simpa using hne

/-- What a line that ends in code, or is the last one, or completes its statement hands on does not
matter. -/
theorem gather_behind {line : Text}
    (h : (Segment.ofLine line 1 false .code).2 = .code ∨ unread = [] ∨
      (Gathered.gather s.tabWidth s.maxContinuationLines .closed .code
        (.behind line [])).ending ≠ .exhausted) :
    Gathered.gather s.tabWidth s.maxContinuationLines .closed .code (.behind line unread) =
      Gathered.gather s.tabWidth s.maxContinuationLines .closed
        (Segment.ofLine line 1 false .code).2 (.behind line unread) := by
  have hregion := @Gathered.gather_region s.tabWidth s.maxContinuationLines .closed .code
    (Segment.ofLine line 1 false .code).2 1 (Segment.ofLine line 1 false .code).1
  rcases h with hcode | rfl | hne
  · rw [hcode]
  · exact hregion
  · have hne' := hne
    rw [Source.behind, hregion] at hne'
    calc Gathered.gather s.tabWidth s.maxContinuationLines .closed .code (.behind line unread)
      _ = (Gathered.gather s.tabWidth s.maxContinuationLines .closed .code
            (.behind line [])).append unread := Gathered.gather_append unread hne
      _ = (Gathered.gather s.tabWidth s.maxContinuationLines .closed
            (Segment.ofLine line 1 false .code).2 (.behind line [])).append unread :=
          congrArg (·.append unread) hregion
      _ = Gathered.gather s.tabWidth s.maxContinuationLines .closed
            (Segment.ofLine line 1 false .code).2 (.behind line unread) :=
          (Gathered.gather_append unread hne').symm

def pair : Text :=
  "x;y\n".toList

theorem ofLine_pair_code (lineNumber : Nat) : Segment.ofLine pair lineNumber false .code =
    ([⟨⟨['x'], true, []⟩, none, lineNumber, true⟩,
      ⟨⟨['y', '\n'], false, []⟩, none, lineNumber, true⟩], .code) := rfl

theorem ofLine_pair_quoted {r : Region} (hp : r.IsProper) (hq : r.isQuoted) (lineNumber : Nat) :
    (Segment.ofLine pair lineNumber false r).1 =
      [⟨⟨pair, false, []⟩, none, lineNumber, true⟩] := by
  cases r with
  | literal delimiter => rcases hp with rfl | rfl <;> rfl
  | span sigil =>
    obtain (rfl | rfl) | rfl : (sigil = '#' ∨ sigil = '$') ∨ sigil = '@' := by
      simpa [IsProper, Marker.isSigil] using hp
    all_goals rfl
  | _ => cases hq

theorem source_gather_behind {line : Text} {r : Region} {first : Segment} {rest : List Segment}
    (he : (Gathered.gather s.tabWidth s.maxContinuationLines .closed .code
      (.behind line [])).ending = .exhausted)
    (hcomment : ∀ s ∈ (Segment.ofLine line 1 false .code).1, s.comment = [])
    (hpair : (Segment.ofLine pair 2 false r).1 = first :: rest)
    (hopen : ∀ b, (Continuation.after ⟨b, false⟩ first).isOpen = false) :
    (Gathered.gather s.tabWidth s.maxContinuationLines .closed r
      (.behind line [.text pair])).source = ⟨[], 2, rest⟩ := by
  have hd := Continuation.directive_foldl hcomment .closed
  rw [Source.behind, Gathered.source_gather_of_exhausted he]
  generalize (Segment.ofLine line 1 false .code).1.foldl Continuation.after .closed = c at hd
  obtain ⟨statement, directive⟩ := c
  obtain rfl : directive = false := hd
  refine Gathered.source_gather_line (t := pair) (n := 1) ?_ (hopen statement) []
  exact hpair

theorem cut_newline (hs : (Sentinel.cut (expandTabs s.tabWidth l)).1 = none) :
    (Sentinel.cut (expandTabs s.tabWidth (l ++ ['\n']))).1 = none := by
  rw [expandTabs_append]
  exact Sentinel.cut_fst_append_cons hs rfl (by decide)

theorem not_mem_plain_append (ha : ∀ c ∈ a, c ∉ specials) (hl : '\n' ∉ l) :
    '\n' ∉ a ++ ';' :: l := by
  intro h
  rcases List.mem_append.mp h with h | h
  · exact absurd (ha _ h) (by decide)
  · exact hl (by simpa using h)

section

variable (ha : ∀ c ∈ a, c ∉ specials) (hm : 1 ≤ s.maxContinuationLines) (hl : '\n' ∉ l)
  (hs : (Sentinel.cut (expandTabs s.tabWidth l)).1 = none)
include ha hm hl hs

theorem splitsOff_iff_steps_newline (rest : Text) :
    SplitsOff s filename a (l ++ '\n' :: rest) ↔
      steps ⟨s, filename,
          .behind (expandTabs s.tabWidth (l ++ ['\n'])) (PhysicalLine.ofText rest), false⟩ =
        steps ⟨s, filename, ⟨.text (l ++ ['\n']) :: PhysicalLine.ofText rest, 0, []⟩, false⟩ := by
  have hne : expandTabs s.tabWidth (l ++ ['\n']) ≠ [] := by
    rw [expandTabs_append]
    exact List.append_ne_nil_of_right_ne_nil _ (List.cons_ne_nil '\n' [])
  have hsplit := ofText_append_cons s filename (not_mem_plain_append ha hl) rest
  have halone := ofText_append_cons s filename hl rest
  simp only [List.append_assoc, List.cons_append] at hsplit
  exact splitsOff_iff_steps ha hm (cut_newline hs) hne hsplit halone

theorem splitsOff_newline (h : ¬GoesOnQuoted s filename l) (rest : Text) :
    SplitsOff s filename a (l ++ '\n' :: rest) := by
  rw [splitsOff_iff_steps_newline ha hm hl hs]
  apply steps_behind
  apply gather_behind
  by_cases he : (ofText (l ++ ['\n']) s filename).next.2.truncated
  · refine Or.inl ?_
    have hq : (Scanner.ofLine (expandTabs s.tabWidth (l ++ ['\n']))
        ⟨true, true⟩).drain.2.region.isQuoted = false := by
      simpa using fun hq ↦ h ⟨he, hq⟩
    rw [Segment.carried_ofLine (cut_newline hs)]
    exact carried_of_isQuoted hq
  · exact Or.inr (Or.inr fun hx ↦ he ((truncated_iff hl).mpr hx))

theorem not_splitsOff_pair (h : GoesOnQuoted s filename l) :
    ¬SplitsOff s filename a (l ++ '\n' :: pair) := by
  obtain ⟨htruncated, hq⟩ := h
  have he := (truncated_iff hl).mp htruncated
  obtain ⟨hproper, hquoted, hcomment⟩ := Segment.ofLine_of_isQuoted (cut_newline hs) hq 1
  rw [splitsOff_iff_steps_newline ha hm hl hs]
  intro hsteps
  have hsplit : (next ⟨s, filename, .behind (expandTabs s.tabWidth (l ++ ['\n'])) [.text pair],
      false⟩).2.source = ⟨[], 2, [⟨⟨['y', '\n'], false, []⟩, none, 2, true⟩]⟩ :=
    source_gather_behind he hcomment (congrArg Prod.fst (ofLine_pair_code 2)) fun _ ↦ rfl
  have halone : (next ⟨s, filename, ⟨[.text (l ++ ['\n']), .text pair], 0, []⟩, false⟩).2.source =
      ⟨[], 2, []⟩ := by
    rw [source_next, gather_text]
    exact source_gather_behind he hcomment (ofLine_pair_quoted hproper hquoted 2) fun _ ↦ rfl
  have hmore : (next ⟨s, filename, .behind (expandTabs s.tabWidth (l ++ ['\n'])) [.text pair],
      false⟩).1 ≠ .done := by
    rw [Ne, done_iff]
    intro h
    cases congrArg Source.unread h
  have hdone : (next ⟨s, filename, ⟨[.text (l ++ ['\n']), .text pair], 0, []⟩, false⟩).2.next.1 =
      .done := by
    rw [done_iff, halone]
  -- Alone, the run has nothing left behind the pair; behind the semicolon, half of the pair waits.
  have hreading := congrArg Step.reading (step_eq_of_steps_eq (steps_next_of_steps_eq hsteps hmore))
  have hqueue := congrArg Source.queue ((done_iff _).mp (hreading.trans hdone))
  exact absurd ((congrArg Source.queue hsplit).symm.trans hqueue) (List.cons_ne_nil _ _)

theorem splitsOff_iff_ne_nil : SplitsOff s filename a l ↔ expandTabs s.tabWidth l ≠ [] := by
  have hsplit := ofText_of_not_mem s filename (not_mem_plain_append ha hl)
    (List.append_ne_nil_of_right_ne_nil _ (List.cons_ne_nil _ _))
  constructor
  · rintro ⟨line, -, hsteps⟩ hnil
    obtain ⟨first, -, hfirst⟩ := steps_plain_append filename [] ha hm hs
    rw [hsplit, hfirst, if_pos hnil] at hsteps
    have hstep := step_eq_of_steps_eq (List.cons.inj hsteps).2
    have hend : (next ⟨s, filename, ⟨[], 1, []⟩, false⟩).1 = .done := (done_iff _).mpr rfl
    have hend' : (ofText l s filename).next.1 = .done :=
      (congrArg Step.reading hstep).symm.trans hend
    -- The line before the semicolon has been read in one run and not in the other.
    have hread := congrArg Source.linesRead (source_next_of_done hend)
    have hread' := congrArg Source.linesRead (source_next_of_done hend')
    exact Nat.one_ne_zero (hread.symm.trans ((congrArg Step.linesRead hstep).trans hread'))
  · intro hne
    have hl' : l ≠ [] := by
      rintro rfl
      exact hne rfl
    rw [splitsOff_iff_steps ha hm hs hne hsplit (ofText_of_not_mem s filename hl hl')]
    exact steps_behind (gather_behind (Or.inr (Or.inl rfl)))

end

variable (filename) in
/-- What follows a semicolon on its line is lexed as if it stood alone, if there is anything; what
comes behind that line is as well, whatever it is, unless the line is gone on with while it leaves a
literal or span open: that it is open is not known any more when its segments have had to wait. -/
theorem splitsOff_iff (ha : ∀ c ∈ a, c ∉ specials) (hm : 1 ≤ s.maxContinuationLines)
    (hl : '\n' ∉ l) (hs : (Sentinel.cut (expandTabs s.tabWidth l)).1 = none) :
    (SplitsOff s filename a l ↔ expandTabs s.tabWidth l ≠ []) ∧
      ((∀ rest, SplitsOff s filename a (l ++ '\n' :: rest)) ↔ ¬GoesOnQuoted s filename l) := by
  refine ⟨splitsOff_iff_ne_nil ha hm hl hs, fun h hq ↦ ?_, fun hq rest ↦ ?_⟩
  · exact not_splitsOff_pair ha hm hl hs hq (h pair)
  · exact splitsOff_newline ha hm hl hs hq rest

theorem splitsOff_openLiteral :
    (∀ c ∈ ['a'], c ∉ specials) ∧
      '\n' ∉ " x = 'b&".toList ∧
      (Sentinel.cut (expandTabs 8 " x = 'b&".toList)).1 = none ∧
      GoesOnQuoted ⟨8, 10000, false⟩ unnamed " x = 'b&".toList ∧
      SplitsOff ⟨8, 10000, false⟩ unnamed ['a'] " x = 'b&".toList ∧
      ¬∀ rest, SplitsOff ⟨8, 10000, false⟩ unnamed ['a'] (" x = 'b&".toList ++ '\n' :: rest) := by
  have ha : ∀ c ∈ ['a'], c ∉ specials := by simp [specials]
  have hl : '\n' ∉ " x = 'b&".toList := by decide
  have hs : (Sentinel.cut (expandTabs 8 " x = 'b&".toList)).1 = none := by decide
  have hq : GoesOnQuoted ⟨8, 10000, false⟩ unnamed " x = 'b&".toList := ⟨rfl, rfl⟩
  obtain ⟨hline, hrest⟩ := splitsOff_iff unnamed ha
    (by decide : 1 ≤ (Settings.mk 8 10000 false).maxContinuationLines) hl hs
  exact ⟨ha, hl, hs, hq, hline.mpr (by decide), fun h ↦ hrest.mp h hq⟩

theorem not_splitsOff_openLiteral :
    ¬SplitsOff ⟨8, 10000, false⟩ unnamed ['a'] " x = 'b&\n&;c'\n".toList := by
  rintro ⟨line, -, h⟩
  rw [steps_of_stepsWithin 9 rfl, steps_of_stepsWithin 9 rfl] at h
  exact absurd (List.cons.inj h).2 (by decide)

end Lexer

end FreeForm
