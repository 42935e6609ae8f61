import FreeForm.Proofs.Edges
import FreeForm.Proofs.Sights
import FreeForm.Proofs.Steps

namespace FreeForm

open Text Region

namespace Statement

theorem remark_of_endsCode {mark : Text} (h : Marker.endsCode (Marker.window mark)) :
    dropEndWhile (· = '\n') mark ≠ [] := by
  intro hnil
  have hall := List.rdropWhile_eq_nil_iff.mp hnil
  rcases mark with _ | ⟨c, _ | ⟨d, mark⟩⟩
  · cases h
  · obtain rfl : c = '\n' := by simpa using hall
    cases h
  · obtain ⟨rfl, rfl⟩ : c = '\n' ∧ d = '\n' := ⟨by simpa using hall c, by simpa using hall d⟩
    cases h

end Statement

namespace Segment

theorem ofLine_eq_ofCode {t : Text} {r : Region} (ht : (Sentinel.cut t).1 = none)
    (hend : endsWith '\n' t)
    (h : Statement.ofSights (sights r.carried false t []) = [⟨t, false, []⟩]) (n : Nat) :
    ofLine t n false r = ([ofCode t n], (walk r.carried false t []).1.carried) := by
  rw [ofLine_code, Sentinel.cut_eq_of_fst ht, Statement.ofText_eq, h, hend]
  rfl

section

variable {u v : Text} {r : Region} (hproper : r.IsProper) (hne : r ≠ .comment)
include hproper hne

theorem ofLine_before (hcut : (Sentinel.cut u).1 = none)
    (hwalk : walk .code false u ['&', '\n'] = (r, false))
    (hsights : ∀ a ∈ sights .code false u ['&', '\n'], Statement.cutsBehind a = false) (n : Nat) :
    ofLine (u ++ ['&', '\n']) n false .code = ([ofCode (u ++ ['&', '\n']) n], r) := by
  have hw : walk .code false (u ++ ['&', '\n']) [] = (r, false) := by
    rw [walk_append, List.append_nil, hwalk]
    exact walk_of_isPlain hproper (by simp [Marker.isPlain, Marker.isSigil]) []
  have hs : ∀ a ∈ sights .code false (u ++ ['&', '\n']) [], Statement.cutsBehind a = false := by
    rw [sights_append, List.append_nil, hwalk, List.forall_mem_append]
    exact ⟨hsights, cutsBehind_of_not_mem (by decide) _ _ _⟩
  have hcut' : (Sentinel.cut (u ++ ['&', '\n'])).1 = none :=
    Sentinel.cut_fst_append_cons hcut rfl (by decide)
  have hfinal : Statement.ofSights (sights .code false (u ++ ['&', '\n']) []) =
      [⟨u ++ ['&', '\n'], false, []⟩] := by
    rw [Statement.ofSights_of_forall hs, Statement.ofFinal_of_walk]
    rwa [hw]
  rw [ofLine_eq_ofCode (r := .code) hcut' (by simp [endsWith]) hfinal]
  simp only [carried] at hw ⊢
  rw [hw]
  exact congrArg _ (carried_of_ne_comment hne)

theorem ofLine_behind (hwalk : walk r false v ['\n'] = (.code, false))
    (hsights : ∀ a ∈ sights r false (v ++ ['\n']) [], Statement.cutsBehind a = false) (n : Nat) :
    (ofLine ('&' :: (v ++ ['\n'])) n false r).1 = [ofCode ('&' :: (v ++ ['\n'])) n] := by
  have hamp : walk r false ['&'] (v ++ ['\n']) = (r, false) :=
    walk_of_isPlain hproper (by simp [Marker.isPlain, Marker.isSigil]) _
  have hnewline : sights .code false ['\n'] [] = [('\n', true)] := rfl
  have hs : ∀ a ∈ sights r false (['&'] ++ (v ++ ['\n'])) [], Statement.cutsBehind a = false := by
    rw [sights_append, List.append_nil, hamp, List.forall_mem_append]
    exact ⟨cutsBehind_of_not_mem (by decide) _ _ _, hsights⟩
  have hlast : ∀ a ∈ (sights r false (['&'] ++ (v ++ ['\n'])) []).getLast?, a.2 = true := by
    rw [sights_append, List.append_nil, hamp, sights_append, List.append_nil, hwalk, hnewline]
    simp
  have hfinal : Statement.ofSights (sights r.carried false ('&' :: (v ++ ['\n'])) []) =
      [⟨'&' :: (v ++ ['\n']), false, []⟩] := by
    rw [carried_of_ne_comment hne]
    refine (Statement.ofSights_of_forall hs).trans ?_
    rw [Statement.ofFinal_of_getLast_shown hlast, map_fst_sights]
    rfl
  have hend := endsWith_concat ('&' :: v) '\n'
  exact congrArg Prod.fst (ofLine_eq_ofCode rfl hend hfinal n)

end

/-- A break changes neither where the scan stands behind it nor what it sees. -/
theorem ofLine_break {u v : Text} (hu : u ≠ [])
    (hlast : ∀ c ∈ u.getLast?, c ∉ ['&', '#', '$', '@', '}'])
    (hcut : (Sentinel.cut (u ++ v)).1 = none)
    (hwalk : walk .code false (u ++ v) ['\n'] = (.code, false))
    (hsights : ∀ a ∈ sights .code false (u ++ v ++ ['\n']) [], Statement.cutsBehind a = false) :
    ∃ r, ofLine (u ++ ['&', '\n']) 1 false .code = ([ofCode (u ++ ['&', '\n']) 1], r) ∧
      (ofLine ('&' :: (v ++ ['\n'])) 2 false r).1 = [ofCode ('&' :: (v ++ ['\n'])) 2] := by
  have hbrace : '}' ∉ u.getLast? := fun h ↦ absurd (hlast '}' h) (by decide)
  have hnext : ∀ c ∈ u.getLast?, Marker.needsNext c = false := by
    intro c hc
    have hc' := hlast c hc
    simp only [List.mem_cons, List.not_mem_nil, not_or] at hc'
    simp [Marker.needsNext, Marker.isSigil, hc']
  obtain ⟨r, hr⟩ : ∃ r, walk .code false u (v ++ ['\n']) = (r, false) :=
    ⟨_, Prod.ext rfl (walk_closing_of_getLast hu hbrace)⟩
  obtain ⟨hwalk₁, hsights₁⟩ :=
    @walk_sights_of_getLast .code false u hnext ['&', '\n'] (v ++ ['\n'])
  rw [walk_append, hr] at hwalk
  rw [List.append_assoc, sights_append, List.append_nil, hr, List.forall_mem_append] at hsights
  have hproper : r.IsProper := by
    have h := IsProper.walk (r := .code) trivial false u (v ++ ['\n'])
    rwa [hr] at h
  have hne : r ≠ .comment := by
    apply @walk_ne_comment r false v ['\n']
    rw [hwalk]
    simp
  refine ⟨r, ?_, ?_⟩
  · apply ofLine_before hproper hne (Sentinel.cut_fst_of_append hcut) (hwalk₁.trans hr)
    rw [hsights₁]
    exact hsights.1
  · exact ofLine_behind hproper hne hwalk hsights.2 2

end Segment

namespace Lexer

/-- The text `w`, on a line of its own, is the statement `line` and nothing else, and leaves nothing
open. -/
structure IsStatement (s : Settings) (filename w : Text) (line : LogicalLine) : Prop where
  readings : (ofText (w ++ ['\n']) s filename).steps.map Step.reading = [.line line, .done]
  complete : ∀ step ∈ (ofText (w ++ ['\n']) s filename).steps, step.truncated = false
  lines : line.lines.length = 1
  comments : ∀ comment ∈ line.comments, comment = []
  sentinel : (Sentinel.cut w).1 = none
  region : (Scanner.ofLine w ⟨true, true⟩).drain.2.region = .code

variable {s : Settings} {filename w : Text} {line : LogicalLine}

namespace IsStatement

variable (hw : IsStatement s filename w line) (htab : '\t' ∉ w) (hnewline : '\n' ∉ w)
include hw htab hnewline

theorem exists_segment : ∃ segment : Segment,
    (Segment.ofLine (w ++ ['\n']) 1 false .code).1 = [segment] ∧
      (Continuation.closed.after segment).isOpen = false ∧ line = .ofSegments [segment] := by
  have hexpand : expandTabs s.tabWidth (w ++ ['\n']) = w ++ ['\n'] :=
    expandTabs_of_not_mem _ (by simpa using htab)
  have hg : (ofText (w ++ ['\n']) s filename).gather =
      Gathered.gather s.tabWidth s.maxContinuationLines .closed
        (Segment.ofLine (w ++ ['\n']) 1 false .code).2
        ⟨[], 1, (Segment.ofLine (w ++ ['\n']) 1 false .code).1⟩ := by
    rw [ofText_append_cons s filename hnewline []]
    refine (Gathered.gather_text _ _ _ _ _ _ _).trans ?_
    rw [hexpand]
    rfl
  obtain ⟨hline, hdone⟩ := next_of_readings hw.readings
  obtain ⟨hcomplete, rfl⟩ := gather_of_line hline (hw.complete _ (step_mem_steps _))
  have hqueue := congrArg Source.queue ((done_iff _).mp hdone)
  have hlines := hw.lines
  rw [source_next] at hqueue
  rw [hg] at hqueue hcomplete hlines ⊢
  have hsegments := @Gathered.segments_append_queue s.tabWidth s.maxContinuationLines .closed
    (Segment.ofLine (w ++ ['\n']) 1 false .code).2 1
    (Segment.ofLine (w ++ ['\n']) 1 false .code).1
  rw [hqueue, List.append_nil] at hsegments
  rw [hsegments] at hlines ⊢
  obtain ⟨segment, hsegment⟩ : ∃ segment,
      (Segment.ofLine (w ++ ['\n']) 1 false .code).1 = [segment] := by
    apply List.length_eq_one_iff.mp
    simpa [LogicalLine.ofSegments] using hlines
  rw [hsegment] at hcomplete ⊢
  exact ⟨segment, rfl, Gathered.isOpen_of_complete hcomplete, rfl⟩

theorem scan : walk .code false w ['\n'] = (.code, false) ∧
    (∀ a ∈ sights .code false (w ++ ['\n']) [], Statement.cutsBehind a = false) ∧
      (Continuation.closed.after (.ofCode (w ++ ['\n']) 1)).isOpen = false ∧
        line = .ofSegments [.ofCode (w ++ ['\n']) 1] := by
  obtain ⟨segment, hsegment, hopen, rfl⟩ := hw.exists_segment htab hnewline
  have hcut : (Sentinel.cut (w ++ ['\n'])).1 = none :=
    Sentinel.cut_fst_append_cons hw.sentinel rfl (by decide)
  have hend := endsWith_concat w '\n'
  rw [Segment.ofLine_code, Sentinel.cut_eq_of_fst hcut, Statement.ofText_eq, Segment.place_none,
    hend] at hsegment
  obtain ⟨statement, hstatement, rfl⟩ := List.map_eq_singleton_iff.mp hsegment
  change Statement.ofSights (sights .code false (w ++ ['\n']) []) = [statement] at hstatement
  have hforall : ∀ a ∈ sights .code false (w ++ ['\n']) [], Statement.cutsBehind a = false := by
    apply Statement.cutsBehind_of_length
    · rw [hstatement, List.length_singleton]
    · intro a ha
      rw [fst_of_getLast_sights .code false w '\n' [] a ha]
      decide
  rw [Statement.ofSights_of_forall hforall] at hstatement
  obtain rfl := List.singleton_inj.mp hstatement
  have hne : (walk .code false (w ++ ['\n']) []).1 ≠ .comment := by
    intro h
    refine Statement.remark_of_endsCode (Statement.endsCode_comment_ofFinal h) ?_
    exact hw.comments _ (by simp [LogicalLine.ofSegments, Segment.remark])
  rw [Statement.ofFinal_of_walk hne] at hopen ⊢
  refine ⟨?_, hforall, hopen, rfl⟩
  rw [walk_append] at hne
  have hregion := hw.region
  rw [Scanner.region_drain_ofLine] at hregion
  rcases walk_newline .code false w with h | h
  · exact absurd h (walk_ne_comment hne)
  · exact h.trans (Prod.ext hregion (walk_closing_nil .code w))

end IsStatement

theorem ofText_break (s : Settings) (filename : Text) {u v : Text} (hu : '\n' ∉ u)
    (hv : '\n' ∉ v) :
    ofText (u ++ '&' :: '\n' :: '&' :: (v ++ ['\n'])) s filename =
      ⟨s, filename, ⟨[.text (u ++ ['&', '\n']), .text ('&' :: (v ++ ['\n']))], 0, []⟩, false⟩ := by
  have hu' : '\n' ∉ u ++ ['&'] := by simpa using hu
  have hv' : '\n' ∉ '&' :: v := by simpa using hv
  have hfirst := ofText_append_cons s filename hu' ('&' :: v ++ ['\n'])
  rw [PhysicalLine.ofText_append_cons hv'] at hfirst
  have hnil : PhysicalLine.ofText [] = [] := rfl
  simpa [hnil] using hfirst

theorem gather_break {s₀ : Settings} {filename₀ u v : Text}
    (hw : IsStatement s₀ filename₀ (u ++ v) line) (htab : '\t' ∉ u ++ v) (hnewline : '\n' ∉ u ++ v)
    (hu : ∃ c ∈ u, isBlank c = false ∧ c ≠ '&')
    (hlast : ∀ c ∈ u.getLast?, c ∉ ['&', '#', '$', '@', '}']) (hv : isBlankText v = false)
    (hm : 2 ≤ s.maxContinuationLines) (filename : Text) :
    (ofText (u ++ '&' :: '\n' :: '&' :: (v ++ ['\n'])) s filename).gather =
      ⟨[.ofCode (u ++ ['&', '\n']) 1, .ofCode ('&' :: (v ++ ['\n'])) 2], .complete,
        ⟨[], 2, []⟩⟩ := by
  have hne : u ≠ [] := by
    rintro rfl
    simp at hu
  have hv' : ∃ c ∈ v, isBlank c = false := by
    simpa [isBlankText] using hv
  obtain ⟨htabu, htabv⟩ : '\t' ∉ u ∧ '\t' ∉ v := by simpa using htab
  obtain ⟨hnewlineu, hnewlinev⟩ : '\n' ∉ u ∧ '\n' ∉ v := by simpa using hnewline
  obtain ⟨hwalk, hsights, hopen, -⟩ := hw.scan htab hnewline
  obtain ⟨r, hfirst, hsecond⟩ := Segment.ofLine_break hne hlast hw.sentinel hwalk hsights
  obtain ⟨room, hroom⟩ : ∃ room, s.maxContinuationLines = room + 1 + 1 :=
    ⟨_, (Nat.sub_add_cancel hm).symm⟩
  have hsource := ofText_break s filename hnewlineu hnewlinev
  have hexpand₁ : expandTabs s.tabWidth (u ++ ['&', '\n']) = u ++ ['&', '\n'] :=
    expandTabs_of_not_mem _ (by simpa using htabu)
  have hexpand₂ : expandTabs s.tabWidth ('&' :: (v ++ ['\n'])) = '&' :: (v ++ ['\n']) :=
    expandTabs_of_not_mem _ (by simpa using htabv)
  have hopen₁ := Continuation.isOpen_before hu .closed 1
  have hopen₂ : ((Continuation.closed.after (.ofCode (u ++ ['&', '\n']) 1)).after
      (.ofCode ('&' :: (v ++ ['\n'])) 2)).isOpen = false := by
    have h := Continuation.isOpen_behind hu hv'
      (Continuation.closed.after (.ofCode (u ++ ['&', '\n']) 1)) .closed rfl 2 1
    rw [h, ← List.append_assoc, hopen]
  rw [hsource, gather, hroom, Gathered.gather_text, hexpand₁]
  change Gathered.gather _ _ _ (Segment.ofLine _ 1 false .code).2
    ⟨_, 1, (Segment.ofLine _ 1 false .code).1⟩ = _
  rw [hfirst, Gathered.gather_more _ _ _ _ _ _ hopen₁, Gathered.gather_text, hexpand₂]
  change Gathered.push _ (Gathered.gather _ _ _ _ ⟨_, 2, (Segment.ofLine _ 2 false r).1⟩) = _
  rw [hsecond, Gathered.gather_complete _ _ _ _ _ _ hopen₂]
  rfl

/-- A statement can be broken anywhere behind its first character, also inside a literal or span:
with `&` at the end of one line and at the start of the next, it is joined to what it was. -/
theorem steps_break {s₀ : Settings} {filename₀ u v : Text}
    (hw : IsStatement s₀ filename₀ (u ++ v) line) (htab : '\t' ∉ u ++ v) (hnewline : '\n' ∉ u ++ v)
    (hu : ∃ c ∈ u, isBlank c = false ∧ c ≠ '&')
    (hlast : ∀ c ∈ u.getLast?, c ∉ ['&', '#', '$', '@', '}']) (hv : isBlankText v = false)
    (hhead : v.head? ≠ some '&') (hm : 2 ≤ s.maxContinuationLines) (filename : Text) :
    ∃ broken : LogicalLine,
      (ofText (u ++ '&' :: '\n' :: '&' :: (v ++ ['\n'])) s filename).steps =
          [⟨.line broken, 2, false⟩, ⟨.done, 2, false⟩] ∧
        broken.lines = [u ++ ['&', '\n'], '&' :: (v ++ ['\n'])] ∧
        broken.comments = [[], []] ∧ broken.joined = line.joined := by
  have hg := gather_break hw htab hnewline hu hlast hv hm filename
  have hamp : '&' ∉ u.getLast? := fun h ↦ absurd (hlast '&' h) (by decide)
  have hv' : ∃ c ∈ v, isBlank c = false := by
    simpa [isBlankText] using hv
  have hnewlineu : '\n' ∉ u := fun h ↦ hnewline (List.mem_append_left _ h)
  obtain ⟨-, -, -, rfl⟩ := hw.scan htab hnewline
  refine ⟨.ofSegments [.ofCode (u ++ ['&', '\n']) 1, .ofCode ('&' :: (v ++ ['\n'])) 2],
    ?_, ?_, rfl, ?_⟩
  · exact steps_of_gather_complete hg
  · simp [LogicalLine.ofSegments, Segment.source_ofCode]
  · have hjoin := LogicalLine.join_break hu hamp hv' hhead hnewlineu 1 1
    rw [← List.append_assoc] at hjoin
    exact hjoin

theorem steps_break_literal :
    IsStatement ⟨8, 1, false⟩ unnamed (" x = 'a;".toList ++ "!b' + 1".toList)
        ⟨"x = 'a;!b' + 1\n".toList, [[]], [" x = 'a;!b' + 1\n".toList], 1⟩ ∧
      ∃ broken : LogicalLine,
        (ofText " x = 'a;&\n&!b' + 1\n".toList ⟨8, 2, false⟩ unnamed).steps =
            [⟨.line broken, 2, false⟩, ⟨.done, 2, false⟩] ∧
          broken.lines = [" x = 'a;&\n".toList, "&!b' + 1\n".toList] ∧
          broken.comments = [[], []] ∧ broken.joined = "x = 'a;!b' + 1\n".toList := by
  have hw : IsStatement ⟨8, 1, false⟩ unnamed (" x = 'a;".toList ++ "!b' + 1".toList)
      ⟨"x = 'a;!b' + 1\n".toList, [[]], [" x = 'a;!b' + 1\n".toList], 1⟩ := by
    constructor
    · rw [steps_of_stepsWithin 9 rfl]
      rfl
    · rw [steps_of_stepsWithin 9 rfl]
      decide
    all_goals decide
  exact ⟨hw, steps_break hw (by decide) (by decide) ⟨'x', by decide⟩ (by simp) (by decide)
    (by decide) (by decide) unnamed⟩

end Lexer

end FreeForm
