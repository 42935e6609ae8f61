import FreeForm.Proofs.Edges
import FreeForm.Proofs.Scanning

namespace FreeForm

open Text

namespace Region

open Marker

/-- Behind `before`, in code, a comment, directive or preprocessor line starts with `mark`. -/
structure HaltsAt (r : Region) (closing : Bool) (before mark : Text) : Prop where
  walk : r.walk closing before mark = (.code, false)
  opener : opener? (window mark) = none
  endsCode : endsCode (window mark)

variable {r : Region} {closing : Bool} {before mark : Text} {c : Char}

theorem HaltsAt.tail (h : HaltsAt r closing (c :: before) mark) :
    HaltsAt (r.step closing c (before ++ mark)).region (r.step closing c (before ++ mark)).closing
      before mark :=
  ⟨h.walk, h.opener, h.endsCode⟩

theorem HaltsAt.of_append {front : Text} (h : HaltsAt r closing (front ++ before) mark)
    (hfront : r.walk closing front (before ++ mark) = (.code, false)) :
    HaltsAt .code false before mark := by
  have hwalk := h.walk
  rw [walk_append, hfront] at hwalk
  exact ⟨hwalk, h.opener, h.endsCode⟩

theorem HaltsAt.exists_cons (h : HaltsAt r closing before mark) :
    ∃ c t, mark = c :: t ∧ step .code false c t = ⟨.comment, false, false⟩ := by
  have hends := h.endsCode
  have hopener := h.opener
  cases mark with
  | nil => cases hends
  | cons c t => exact ⟨c, t, rfl, by simp [step, hopener, hends]⟩

theorem HaltsAt.sights (h : HaltsAt r closing before mark) :
    sights r closing (before ++ mark) [] =
      Region.sights r closing before mark ++ mark.map fun c ↦ (c, false) := by
  obtain ⟨c, t, rfl, hstep⟩ := h.exists_cons
  rw [sights_append, List.append_nil, h.walk, Region.sights, List.append_nil, hstep, sights_comment]
  rfl

theorem HaltsAt.region (h : HaltsAt r closing before mark) :
    (Region.walk r closing (before ++ mark) []).1 = .comment := by
  obtain ⟨c, t, rfl, hstep⟩ := h.exists_cons
  rw [walk_append, List.append_nil, h.walk, Region.walk, List.append_nil, hstep, walk_comment]

theorem head_of_endsCode (h : Marker.endsCode (window (c :: mark)))
    (hd : startsDirective (window (c :: mark)) = false) : c = '!' ∨ c = '#' := by
  rw [Marker.endsCode, hd, Bool.false_or, Bool.or_eq_true] at h
  rcases h with h | h
  · right
    unfold startsPreprocessor at h
    split at h
    · next heq => cases mark <;> simp_all [window]
    · cases h
  · left
    unfold startsComment at h
    split at h
    · next heq => cases mark <;> simp_all [window]
    · cases h

/-- With a newline in place of the mark, a character is read in the same way, unless the mark makes
a closer of it. -/
theorem step_newline_of_mark {m : Char} (hm : m = '!' ∨ m = '#')
    (h : (r.step closing c (m :: mark)).closing = false) :
    r.step closing c (m :: mark) = r.step closing c ['\n'] := by
  by_cases hnext : needsNext c
  · cases closing with
    | true => rfl
    | false =>
      have hc : ((c = '#' ∨ c = '$') ∨ c = '@') ∨ c = '}' := by
        simpa [needsNext, isSigil] using hnext
      cases r with
      | code => rcases hc with ((rfl | rfl) | rfl) | rfl <;> rcases hm with rfl | rfl <;> rfl
      | span sigil =>
        have hnewline : closes sigil (window [c, '\n']) = false := closes_of_isSigil [] sigil rfl
        by_cases hcloses : closes sigil (window (c :: m :: mark))
        · simp [step, hcloses] at h
        · simp [step, hcloses, hnewline]
      | literal | comment => rfl
  · exact step_of_needsNext (by simpa using hnext) _ _

theorem HaltsAt.trace_newline (h : HaltsAt r closing before mark)
    (hd : startsDirective (window mark) = false) :
    trace r closing before mark = trace r closing before ['\n'] := by
  obtain ⟨m, t, rfl, -⟩ := h.exists_cons
  have hm := head_of_endsCode h.endsCode hd
  rcases List.eq_nil_or_concat before with rfl | ⟨front, c, rfl⟩
  · rfl
  · have hwalk := h.walk
    have hhead : (c :: m :: t).head? = [c, '\n'].head? := rfl
    have hfront := @walk_sights_congr r closing front _ _ hhead
    rw [List.concat_eq_append] at hwalk ⊢
    rw [walk_concat] at hwalk
    have hstep := step_newline_of_mark hm (congrArg Prod.snd hwalk)
    rw [trace_append, trace_append, List.singleton_append, List.singleton_append, ← hfront.1,
      trace_congr hhead]
    simp only [trace, List.nil_append, hstep]

theorem HaltsAt.newline (h : HaltsAt r closing before mark)
    (hd : startsDirective (window mark) = false) :
    Region.walk r closing (before ++ ['\n']) [] = (.code, false) ∧
      Region.sights r closing (before ++ ['\n']) [] =
        Region.sights r closing before mark ++ [('\n', true)] := by
  obtain ⟨hwalk, hsights⟩ := walk_sights_of_trace (h.trace_newline hd)
  rw [walk_append, sights_append, List.append_nil, ← hwalk, ← hsights, h.walk]
  exact ⟨rfl, rfl⟩

end Region

namespace Scanner

open Region

variable {s : Scanner} (hv : s.view = ⟨true, true⟩) (hr : s.region ≠ .comment)
  (hn : s.haltedAt = none)
include hv hr hn

theorem exists_haltsAt {offset : Nat} (h : s.drain.2.haltedAt = some offset) :
    ∃ before mark, s.rest = before ++ mark ∧ offset = s.offset + byteLength before ∧
      HaltsAt s.region s.closing before mark := by
  generalize ht : s.rest = t
  induction t generalizing s with
  | nil => simp [drain, hn, ht, drainIn] at h
  | cons c t ih =>
    rw [drain_of_rest ht hn] at h
    by_cases hc : (s.region.step s.closing c t).region = .comment
    · obtain ⟨hcode, hclosing, hopener, hends, -⟩ := step_of_region_eq_comment hr hc
      have hhalts : s.view.halts (s.region.step s.closing c t) := by simp [View.halts, hv, hc]
      rw [if_pos hhalts] at h
      refine ⟨[], c :: t, rfl, (Option.some.inj h).symm, ?_, hopener, hends⟩
      rw [hcode, hclosing, walk_nil]
    · have hhalts : ¬s.view.halts (s.region.step s.closing c t) := by simp [View.halts, hc]
      rw [if_neg hhalts] at h
      obtain ⟨before, mark, rfl, rfl, hmark⟩ := @ih (s.pass c t) hv hc hn h rfl
      refine ⟨c :: before, mark, rfl, Nat.add_assoc _ _ _, ?_, hmark.opener, hmark.endsCode⟩
      exact hmark.walk

theorem walk_ne_comment_of_haltedAt (h : s.drain.2.haltedAt = none) :
    (walk s.region s.closing s.rest []).1 ≠ .comment := by
  generalize ht : s.rest = t
  induction t generalizing s with
  | nil => exact hr
  | cons c t ih =>
    rw [drain_of_rest ht hn] at h
    by_cases hc : (s.region.step s.closing c t).region = .comment
    · have hhalts : s.view.halts (s.region.step s.closing c t) := by simp [View.halts, hv, hc]
      rw [if_pos hhalts] at h
      cases h
    · have hhalts : ¬s.view.halts (s.region.step s.closing c t) := by simp [View.halts, hc]
      rw [if_neg hhalts] at h
      rw [walk, List.append_nil]
      exact @ih (s.pass c t) hv hc hn h rfl

end Scanner

namespace Statement

open Region Marker

theorem splitMark_of_haltsAt {r : Region} {closing : Bool} {before mark : Text}
    (h : HaltsAt r closing before mark) :
    splitMark r closing (before ++ mark) = some (before, mark) := by
  induction before generalizing r closing with
  | nil =>
    obtain ⟨c, t, rfl, hstep⟩ := h.exists_cons
    obtain ⟨rfl, rfl⟩ := Prod.mk.inj h.walk
    simp [splitMark, hstep, h.endsCode]
  | cons c before ih =>
    have htail := h.tail
    have hwalk : (walk (r.step closing c (before ++ mark)).region
        (r.step closing c (before ++ mark)).closing before mark).1 ≠ .comment := by
      rw [htail.walk]
      simp
    have hregion := walk_ne_comment hwalk
    have hmark : ((!(r.step closing c (before ++ mark)).quoted) &&
        Marker.endsCode (window (c :: (before ++ mark)))) = false := by
      have he := effect_step r closing c (before ++ mark)
      generalize r.step closing c (before ++ mark) = s at hregion he
      cases he with
      | opensComment | inComment => exact absurd rfl hregion
      | inCode _ he => simp [he]
      | _ => rfl
    rw [List.cons_append, splitMark]
    simp [hmark, ih htail]

end Statement

theorem Region.HaltsAt.unique {r : Region} {closing : Bool} {before before' mark mark' : Text}
    (h : HaltsAt r closing before mark) (h' : HaltsAt r closing before' mark')
    (heq : before ++ mark = before' ++ mark') : before = before' ∧ mark = mark' := by
  have hsplit := Statement.splitMark_of_haltsAt h
  rw [heq, Statement.splitMark_of_haltsAt h'] at hsplit
  obtain ⟨hbefore, hmark⟩ := Prod.mk.inj (Option.some.inj hsplit)
  exact ⟨hbefore.symm, hmark.symm⟩

theorem Scanner.haltedAt_of_walk {t : Text} (h : (Region.walk .code false t []).1 ≠ .comment) :
    (ofLine t ⟨true, true⟩).drain.2.haltedAt = none := by
  have hr : (ofLine t ⟨true, true⟩).region ≠ .comment := by
    simp [ofLine, resume, Region.carried]
  cases hhalted : (ofLine t ⟨true, true⟩).drain.2.haltedAt with
  | none => rfl
  | some offset =>
    obtain ⟨before, mark, hrest, -, hmark⟩ := exists_haltsAt rfl hr rfl hhalted
    obtain rfl : t = before ++ mark := hrest
    exact absurd hmark.region h

theorem Scanner.haltedAt_resume_of_haltsAt {r : Region} {before mark : Text}
    (h : Region.HaltsAt r.carried false before mark) :
    (resume (before ++ mark) ⟨true, true⟩ r).drain.2.haltedAt = some (byteLength before) := by
  have hr : (resume (before ++ mark) ⟨true, true⟩ r).region ≠ .comment := r.carried_ne_comment
  cases hhalted : (resume (before ++ mark) ⟨true, true⟩ r).drain.2.haltedAt with
  | none => exact absurd h.region (walk_ne_comment_of_haltedAt rfl hr rfl hhalted)
  | some offset =>
    obtain ⟨before', mark', heq, rfl, h'⟩ := exists_haltsAt rfl hr rfl hhalted
    obtain ⟨rfl, -⟩ := h.unique h' heq
    exact congrArg some (Nat.zero_add _)

theorem Scanner.haltedAt_of_haltsAt {before mark : Text} (h : Region.HaltsAt .code false before mark) :
    (ofLine (before ++ mark) ⟨true, true⟩).drain.2.haltedAt = some (byteLength before) :=
  haltedAt_resume_of_haltsAt (r := .code) h

namespace Statement

open Region

theorem ofFinal_of_haltsAt {before mark : Text} (h : HaltsAt .code false before mark) :
    ofFinal (sights .code false before mark ++ mark.map fun c ↦ (c, false)) =
      ⟨before, false, mark⟩ := by
  obtain ⟨front, tail, hs, hfront, htail⟩ := exists_hidden_tail (sights .code false before mark)
  obtain ⟨t₁, t₂, rfl, hf, ht⟩ := sights_eq_append hs
  have hw : walk .code false t₁ (t₂ ++ mark) = (.code, false) := by
    by_cases h₁ : t₁ = []
    · rw [h₁, walk_nil]
    · exact walk_of_shown h₁ (hf ▸ hfront)
  have hfst₁ : front.map Prod.fst = t₁ := by rw [hf, map_fst_sights]
  have hfst₂ : tail.map Prod.fst = t₂ := by rw [ht, map_fst_sights]
  have hhidden : ∀ a ∈ tail ++ mark.map fun c ↦ (c, false), a.2 = false := by
    intro a ha
    rcases List.mem_append.mp ha with ha | ha
    · exact htail a ha
    · obtain ⟨c, -, rfl⟩ := List.mem_map.mp ha
      rfl
  have hmap : (tail ++ mark.map fun c ↦ (c, false)).map Prod.fst = t₂ ++ mark := by
    rw [List.map_append, hfst₂, List.map_map]
    simp [Function.comp_def]
  rw [hs, List.append_assoc, ofFinal_append hfront hhidden, hmap,
    splitMark_of_haltsAt (h.of_append hw), hfst₁]

def uncommented (s : Statement) : Statement :=
  if s.comment.isEmpty then s else ⟨s.code ++ ['\n'], s.separated, []⟩

theorem uncommented_of_comment {s : Statement} (h : s.comment = []) : s.uncommented = s := by
  rw [uncommented, h]
  rfl

theorem ofSights_of_haltsAt {before mark : Text} (h : HaltsAt .code false before mark) :
    ofSights (sights .code false before mark ++ [('\n', true)]) =
        (ofSights (sights .code false before mark ++ mark.map fun c ↦ (c, false))).map uncommented ∧
      ∀ s ∈ ofSights (sights .code false before mark ++ mark.map fun c ↦ (c, false)),
        s.comment = [] ∨ s.comment = mark := by
  have hmark : mark ≠ [] := by
    obtain ⟨c, t, rfl, -⟩ := h.exists_cons
    simp
  generalize hs : sights .code false before mark = sights
  induction sights using cut_induction cutsBehind generalizing before with
  | whole sights hw =>
    have hfinal := ofFinal_of_haltsAt h
    have hmap := map_fst_sights .code false before mark
    rw [hs] at hfinal hmap
    have hnewline : ∀ a ∈ sights ++ [('\n', true)], cutsBehind a = false := by
      rw [List.forall_mem_append]
      exact ⟨hw, by simp [cutsBehind]⟩
    have hhidden : ∀ a ∈ sights ++ mark.map fun c ↦ (c, false), cutsBehind a = false := by
      rw [List.forall_mem_append]
      exact ⟨hw, by simp [cutsBehind]⟩
    rw [ofSights_of_forall hnewline, ofSights_of_forall hhidden, hfinal,
      ofFinal_of_getLast_shown (by simp), List.map_append, hmap]
    simp [uncommented, hmark]
  | cut piece a rest hp ha ih =>
    obtain ⟨c, shown⟩ := a
    obtain ⟨rfl, rfl⟩ : shown = true ∧ c = ';' := by simpa [cutsBehind] using ha
    have hs' : sights .code false before mark = (piece ++ [(';', true)]) ++ rest := by simp [hs]
    obtain ⟨t₁, t₂, rfl, hfront, htail⟩ := sights_eq_append hs'
    have hne : t₁ ≠ [] := by
      rintro rfl
      simp at hfront
    -- The scan goes on in code behind the semicolon, since it shows it.
    have hw : walk .code false t₁ (t₂ ++ mark) = (.code, false) := by
      apply walk_of_shown hne
      rw [← hfront]
      simp
    rw [hw] at htail
    obtain ⟨hmap, hcomment⟩ := ih (h.of_append hw) htail.symm
    have hnewline : rest ++ [('\n', true)] ≠ [] := by simp
    have hhidden : rest ++ mark.map (fun c ↦ (c, false)) ≠ [] := by simp [hmark]
    rw [List.append_assoc, List.append_assoc, List.cons_append, List.cons_append,
      ofSights_append_cons hp, ofSights_append_cons hp, List.isEmpty_eq_false_iff.mpr hnewline,
      List.isEmpty_eq_false_iff.mpr hhidden, if_neg Bool.false_ne_true, if_neg Bool.false_ne_true,
      List.map_cons, ← hmap]
    exact ⟨rfl, List.forall_mem_cons.mpr ⟨Or.inl rfl, hcomment⟩⟩

end Statement

namespace Sentinel

variable {front t : Text} {c : Char}

theorem takeWhile_dropWhile_append_cons {p : Char → Bool} (hc : p c = false) (front t : Text) :
    (front ++ c :: t).takeWhile p = front.takeWhile p ∧
      (front ++ c :: t).dropWhile p = front.dropWhile p ++ c :: t := by
  induction front with
  | nil => simp [hc]
  | cons d front ih => by_cases hd : p d <;> simp [hd, ih]

theorem cutName_append_cons (hc : c.toLower ∉ ['o', 'm', 'p']) (front t : Text) :
    cutName (front ++ c :: t) = ((cutName front).1, (cutName front).2 ++ c :: t) := by
  have hletter : c.toLower ≠ 'o' ∧ c.toLower ≠ 'm' ∧ c.toLower ≠ 'p' := by simpa using hc
  rcases front with _ | ⟨d, _ | ⟨e, _ | ⟨f, front⟩⟩⟩
  · rcases t with _ | ⟨d, _ | ⟨e, t⟩⟩ <;> simp [cutName, hletter]
  · rcases t with _ | ⟨e, t⟩ <;> simp [cutName, hletter]
  · simp [cutName, hletter]
  · simp only [List.cons_append, cutName]
    split <;> rfl

theorem cut_of_dropWhile {line x : Text} (h : line.dropWhile isBlank = '!' :: '$' :: x) :
    cut line = (some ⟨line.takeWhile isBlank, '!' :: '$' :: (cutName x).1,
      (cutName x).2.takeWhile (· = ' ')⟩, (cutName x).2.dropWhile (· = ' ')) := by
  unfold cut
  rw [h]
  rfl

theorem exists_of_cut_ne_none {line : Text} (h : (cut line).1 ≠ none) :
    ∃ x, line.dropWhile isBlank = '!' :: '$' :: x := by
  rw [Ne, cut_fst_eq_none_iff, Decidable.not_not] at h
  obtain ⟨x, hx⟩ := h
  exact ⟨x, hx.symm⟩

theorem cut_append_cons (hc : c ∈ ['!', '#', '\r', '\n']) (h : (cut front).1 ≠ none) :
    cut (front ++ c :: t) = ((cut front).1, (cut front).2 ++ c :: t) := by
  obtain ⟨x, hx⟩ := exists_of_cut_ne_none h
  have hc' : decide (c = ' ') = false ∧ c.toLower ∉ ['o', 'm', 'p'] := by
    simp only [List.mem_cons, List.not_mem_nil, or_false] at hc
    rcases hc with rfl | rfl | rfl | rfl <;> decide
  have hcode : ∃ d ∈ front, isBlank d = false :=
    ⟨'!', (List.dropWhile_suffix isBlank).subset (hx ▸ by simp), rfl⟩
  have hdrop : (front ++ c :: t).dropWhile isBlank = front.dropWhile isBlank ++ c :: t :=
    dropWhile_append_of_exists hcode
  have hsplit : (front ++ c :: t).takeWhile isBlank ++ (front ++ c :: t).dropWhile isBlank =
      front.takeWhile isBlank ++ (front ++ c :: t).dropWhile isBlank := by
    rw [List.takeWhile_append_dropWhile, hdrop, ← List.append_assoc, List.takeWhile_append_dropWhile]
  have htake := List.append_cancel_right hsplit
  rw [hx, List.cons_append, List.cons_append] at hdrop
  obtain ⟨hgap, hrest⟩ :=
    takeWhile_dropWhile_append_cons (p := fun c ↦ decide (c = ' ')) hc'.1 (cutName x).2 t
  rw [cut_of_dropWhile hdrop, cut_of_dropWhile hx, cutName_append_cons hc'.2, htake]
  dsimp only
  rw [hgap, hrest]

theorem cut_lineEnd {ending : Text} (hending : ending = ['\n'] ∨ ending = ['\r', '\n'])
    (body : Text) : cut (body ++ ending) = ((cut body).1, (cut body).2 ++ ending) := by
  by_cases h : (cut body).1 = none
  · rw [cut_eq_of_fst h]
    apply cut_eq_of_fst
    rcases hending with rfl | rfl
    · exact cut_fst_append_cons h rfl (by decide)
    · exact cut_fst_append_cons h rfl (by decide)
  · rcases hending with rfl | rfl
    · exact cut_append_cons (by simp) h
    · exact cut_append_cons (by simp) h

theorem cut_textOf_append_ne_none {line rest : Text} {s : Sentinel}
    (h : cut line = (some s, rest)) (before : Text) : (cut (textOf (some s) ++ before)).1 ≠ none := by
  have hne : (cut line).1 ≠ none := by simp [h]
  obtain ⟨x, hx⟩ := exists_of_cut_ne_none hne
  rw [cut_of_dropWhile hx] at h
  obtain ⟨hs, -⟩ := Prod.mk.inj h
  obtain rfl := Option.some.inj hs
  have hblank : ∀ c ∈ line.takeWhile isBlank, isBlank c := fun c hc ↦ List.mem_takeWhile_imp hc
  have hline : textOf (some ⟨line.takeWhile isBlank, '!' :: '$' :: (cutName x).1,
      (cutName x).2.takeWhile (· = ' ')⟩) ++ before = line.takeWhile isBlank ++
        '!' :: '$' :: ((cutName x).1 ++ (cutName x).2.takeWhile (· = ' ') ++ before) := by
    simp [textOf, text, marker]
  rw [hline, Ne, cut_fst_eq_none_iff, Decidable.not_not, List.dropWhile_append_of_pos hblank]
  exact ⟨_, rfl⟩

/-- From a mark on, what stands behind a sentinel can be exchanged for a newline. -/
theorem cut_newline_of_mark {sentinel : Option Sentinel} {before : Text} (hc : c = '!' ∨ c = '#')
    (h : cut (textOf sentinel ++ (before ++ c :: t)) = (sentinel, before ++ c :: t)) :
    cut (textOf sentinel ++ (before ++ ['\n'])) = (sentinel, before ++ ['\n']) := by
  cases sentinel with
  | none =>
    have hbefore : (cut before).1 = none := cut_fst_of_append (congrArg Prod.fst h)
    exact cut_eq_of_fst (cut_fst_append_cons hbefore rfl (by decide))
  | some sentinel =>
    have hmark : c ∈ ['!', '#', '\r', '\n'] := by
      rcases hc with rfl | rfl <;> simp
    have hne := cut_textOf_append_ne_none h before
    rw [← List.append_assoc, cut_append_cons hmark hne] at h
    obtain ⟨hfst, hsnd⟩ := Prod.mk.inj h
    rw [← List.append_assoc, cut_append_cons (by simp) hne, hfst, List.append_cancel_right hsnd]

end Sentinel

end FreeForm
