import FreeForm.Proofs.Joining
import FreeForm.Proofs.Tabs

namespace FreeForm

open Text

namespace Text

def codeScan (tabWidth : Nat) (line : Text) : Scanner :=
  (Scanner.ofLine (Sentinel.cut (expandTabs tabWidth line)).2 ⟨true, true⟩).drain.2

def takeExpanded (tabWidth : Nat) : (n : Nat) → Text → Text
  | _, [] => []
  | n, c :: t =>
    let size := byteLength (expandTabs tabWidth [c])
    if size ≤ n then c :: takeExpanded tabWidth (n - size) t else []

/-- The physical line without its comment, from the mark to the newline. -/
def uncommented (tabWidth : Nat) (line : Text) : Text :=
  match (codeScan tabWidth line).haltedAt with
  | none => line
  | some offset =>
    let sentinel := Sentinel.textOf (Sentinel.cut (expandTabs tabWidth line)).1
    takeExpanded tabWidth (byteLength sentinel + offset) line ++ ['\n']

def withoutComments (tabWidth : Nat) (t : Text) : Text :=
  (PhysicalLine.cutLines '\n' t).flatMap (uncommented tabWidth)

/-- No literal or span is open where the line ends, and its comment is no directive. -/
structure IsSelfContained (tabWidth : Nat) (line : Text) : Prop where
  region : (codeScan tabWidth line).region.isQuoted = false
  comment : ∀ offset ∈ (codeScan tabWidth line).haltedAt,
    ∀ ahead ∈ Marker.windowAt? (Sentinel.cut (expandTabs tabWidth line)).2 offset,
      Marker.startsDirective ahead = false

instance (tabWidth : Nat) (line : Text) : Decidable (IsSelfContained tabWidth line) :=
  decidable_of_iff (_ ∧ _) ⟨fun ⟨h, h'⟩ ↦ ⟨h, h'⟩, fun h ↦ ⟨h.region, h.comment⟩⟩

variable {width : Nat}

theorem endsWith_append_of_ne_nil {c : Char} (s : Text) {t : Text} (ht : t ≠ []) :
    endsWith c (s ++ t) = endsWith c t := by
  rw [endsWith, List.getLast?_append_of_ne_nil _ ht, endsWith]

theorem takeExpanded_append {c : Char} (hc : c ≠ '\t') (kept behind : Text) :
    takeExpanded width (byteLength (expandTabs width kept)) (kept ++ c :: behind) = kept := by
  induction kept with
  | nil =>
    have hsize := c.utf8Size_pos
    rw [List.nil_append, takeExpanded, expandTabs_cons_of_ne _ hc, if_neg]
    simp only [expandTabs_nil, byteLength_cons, byteLength_nil]
    omega
  | cons d kept ih =>
    have hexpand : expandTabs width (d :: kept) = expandTabs width [d] ++ expandTabs width kept :=
      expandTabs_append width [d] kept
    rw [List.cons_append, takeExpanded, hexpand, byteLength_append, if_pos (Nat.le_add_right _ _),
      Nat.add_sub_cancel_left, ih]

end Text

namespace Segment

open Region

def uncommented (s : Segment) : Segment :=
  { s with toStatement := s.toStatement.uncommented }

theorem place_uncommented (sentinel : Option Sentinel) (lineNumber : Nat) (newline : Bool)
    (statements : List Statement) :
    (place sentinel lineNumber newline statements).map uncommented =
      place sentinel lineNumber newline (statements.map Statement.uncommented) := by
  cases statements <;> simp [place, uncommented, Function.comp_def]

/-- Lexed from code, the line `line` ends in code, its comment is no directive, and `line'` is the same
line without it. -/
structure IsUncommented (line line' : Text) (n : Nat) : Prop where
  region : (ofLine line n false .code).2 = .code
  comment : ∀ s ∈ (ofLine line n false .code).1,
    Marker.startsDirective (Marker.window s.comment) = false
  segments : ofLine line' n false .code = ((ofLine line n false .code).1.map uncommented, .code)

theorem isUncommented_self {line : Text}
    (h : (walk .code false (Sentinel.cut line).2 []).1 = .code) (n : Nat) :
    IsUncommented line line n := by
  have hcomment : ∀ s ∈ Statement.ofSights (sights .code false (Sentinel.cut line).2 []),
      s.comment = [] :=
    Statement.comment_of_mem_ofSights (by simp [h])
  have hmap : (Statement.ofSights (sights .code false (Sentinel.cut line).2 [])).map
      Statement.uncommented = Statement.ofSights (sights .code false (Sentinel.cut line).2 []) :=
    (List.map_congr_left fun s hs ↦ Statement.uncommented_of_comment (hcomment s hs)).trans
      (List.map_id _)
  constructor
  · rw [ofLine_code, Statement.ofText_eq]
    exact congrArg carried h
  · intro s hs
    rw [ofLine_code, Statement.ofText_eq] at hs
    rw [hcomment _ (of_mem_place hs).1]
    rfl
  · rw [ofLine_code, Statement.ofText_eq]
    dsimp only [carried]
    rw [place_uncommented, hmap, h]

theorem isUncommented_of_haltsAt {sentinel : Option Sentinel} {before mark : Text}
    (hcut : Sentinel.cut (Sentinel.textOf sentinel ++ (before ++ mark)) =
      (sentinel, before ++ mark))
    (h : HaltsAt .code false before mark) (hd : Marker.startsDirective (Marker.window mark) = false)
    (hend : endsWith '\n' mark) (n : Nat) :
    IsUncommented (Sentinel.textOf sentinel ++ (before ++ mark))
      (Sentinel.textOf sentinel ++ (before ++ ['\n'])) n := by
  obtain ⟨c, t, rfl, -⟩ := h.exists_cons
  have hcut' := Sentinel.cut_newline_of_mark (head_of_endsCode h.endsCode hd) hcut
  obtain ⟨hmap, hcomment⟩ := Statement.ofSights_of_haltsAt h
  obtain ⟨hwalk, hnewline⟩ := h.newline hd
  have hends : endsWith '\n' (Sentinel.textOf sentinel ++ (before ++ c :: t)) := by
    rw [← List.append_assoc, endsWith_append_of_ne_nil _ (List.cons_ne_nil c t)]
    exact hend
  have hends' : endsWith '\n' (Sentinel.textOf sentinel ++ (before ++ ['\n'])) := by
    simp [endsWith]
  constructor
  · rw [ofLine_code, hcut, Statement.ofText_eq]
    exact congrArg carried h.region
  · intro s hs
    rw [ofLine_code, hcut, Statement.ofText_eq] at hs
    dsimp only [carried] at hs
    rw [h.sights] at hs
    rcases hcomment _ (of_mem_place hs).1 with hs | hs
    · rw [hs]
      rfl
    · rw [hs]
      exact hd
  · rw [ofLine_code, hcut', Statement.ofText_eq, ofLine_code, hcut, Statement.ofText_eq]
    dsimp only [carried]
    rw [hnewline, hmap, h.sights, hwalk, hends, hends', place_uncommented]

end Segment

namespace Text

open Region

variable {width width' : Nat} {line : Text}

theorem isSelfContained_iff : IsSelfContained width line ↔
    (walk .code false (Sentinel.cut (expandTabs width line)).2 []).1 = .code ∨
      ∃ before mark, (Sentinel.cut (expandTabs width line)).2 = before ++ mark ∧
        HaltsAt .code false before mark ∧ Marker.startsDirective (Marker.window mark) = false := by
  have hregion := Scanner.region_drain_ofLine (Sentinel.cut (expandTabs width line)).2 ⟨true, true⟩
  have hwindow (before mark : Text) :
      Marker.windowAt? (before ++ mark) (byteLength before) = some (Marker.window mark) := by
    rw [Marker.windowAt?, fromByte?_append]
    rfl
  constructor
  · rintro ⟨hquoted, hcomment⟩
    unfold codeScan at hquoted hcomment
    rw [hregion] at hquoted
    generalize (Sentinel.cut (expandTabs width line)).2 = rest at hquoted hcomment ⊢
    have hr : (Scanner.ofLine rest ⟨true, true⟩).region ≠ .comment := by
      simp [Scanner.ofLine, Scanner.resume, carried]
    cases hhalted : (Scanner.ofLine rest ⟨true, true⟩).drain.2.haltedAt with
    | none =>
      have hne : (walk .code false rest []).1 ≠ .comment :=
        Scanner.walk_ne_comment_of_haltedAt (s := .ofLine rest ⟨true, true⟩) rfl hr rfl hhalted
      left
      rw [← carried_of_ne_comment hne, carried_of_isQuoted hquoted]
    | some offset =>
      obtain ⟨before, mark, hrest, hoffset, hmark⟩ :=
        Scanner.exists_haltsAt (s := .ofLine rest ⟨true, true⟩) rfl hr rfl hhalted
      obtain rfl : rest = before ++ mark := hrest
      obtain rfl : offset = byteLength before := hoffset.trans (Nat.zero_add _)
      exact Or.inr ⟨before, mark, rfl, hmark, hcomment _ hhalted _ (hwindow before mark)⟩
  · rintro (hwalk | ⟨before, mark, hrest, hmark, hd⟩)
    · have hhalted : (codeScan width line).haltedAt = none :=
        Scanner.haltedAt_of_walk (by rw [hwalk]; simp)
      refine ⟨?_, by simp [hhalted]⟩
      rw [codeScan, hregion, hwalk]
      rfl
    · have hhalted := Scanner.haltedAt_of_haltsAt hmark
      rw [← hrest] at hhalted
      constructor
      · rw [codeScan, hregion, hrest, hmark.region]
        rfl
      · intro offset hoffset ahead hahead
        rw [codeScan, hhalted] at hoffset
        obtain rfl := Option.some.inj hoffset
        rw [hrest, hwindow] at hahead
        obtain rfl := Option.some.inj hahead
        exact hd

theorem uncommented_of_walk
    (h : (walk .code false (Sentinel.cut (expandTabs width line)).2 []).1 = .code) :
    uncommented width line = line := by
  have hhalted : (codeScan width line).haltedAt = none :=
    Scanner.haltedAt_of_walk (by rw [h]; simp)
  rw [uncommented, hhalted]

theorem uncommented_append {kept comment before mark : Text} {c : Char} (hc : c ≠ '\t')
    (hrest : (Sentinel.cut (expandTabs width (kept ++ c :: comment))).2 = before ++ mark)
    (hmark : HaltsAt .code false before mark)
    (hkept : expandTabs width kept =
      Sentinel.textOf (Sentinel.cut (expandTabs width (kept ++ c :: comment))).1 ++ before) :
    uncommented width (kept ++ c :: comment) = kept ++ ['\n'] := by
  have hhalted := Scanner.haltedAt_of_haltsAt hmark
  rw [← hrest] at hhalted
  rw [uncommented, codeScan, hhalted]
  dsimp only
  rw [← byteLength_append, ← hkept, takeExpanded_append hc]

theorem ne_blank_of_mark {before mark : Text} {c : Char}
    (hmark : HaltsAt .code false before (c :: mark))
    (hd : Marker.startsDirective (Marker.window (c :: mark)) = false) : c ≠ ' ' ∧ c ≠ '\t' := by
  rcases head_of_endsCode hmark.endsCode hd with rfl | rfl <;> decide

theorem exists_comment {before mark : Text}
    (hrest : (Sentinel.cut (expandTabs width line)).2 = before ++ mark)
    (hmark : HaltsAt .code false before mark)
    (hd : Marker.startsDirective (Marker.window mark) = false) :
    ∃ kept c comment, line = kept ++ c :: comment ∧ mark = c :: expandTabs width comment ∧
      expandTabs width kept =
        Sentinel.textOf (Sentinel.cut (expandTabs width line)).1 ++ before := by
  obtain ⟨c, t, rfl, -⟩ := hmark.exists_cons
  have hline := Sentinel.textOf_cut_append (expandTabs width line)
  rw [hrest, ← List.append_assoc] at hline
  obtain ⟨kept, comment, heq, hkept, rfl⟩ :=
    exists_of_expandTabs_eq_append (ne_blank_of_mark hmark hd).1 hline.symm
  exact ⟨kept, c, comment, heq, rfl, hkept⟩

theorem IsSelfContained.isUncommented (h : IsSelfContained width line) (hline : IsLine line)
    (hend : endsWith '\n' line) :
    (∀ n, Segment.IsUncommented (expandTabs width line)
        (expandTabs width (uncommented width line)) n) ∧
      ∃ body, '\n' ∉ body ∧ uncommented width line = body ++ ['\n'] := by
  rcases isSelfContained_iff.mp h with hwalk | ⟨before, mark, hrest, hmark, hd⟩
  · rw [uncommented_of_walk hwalk]
    refine ⟨Segment.isUncommented_self hwalk, ?_⟩
    obtain ⟨body, hbody, rfl | rfl⟩ := hline.exists_eq
    · rw [not_endsWith_of_not_mem hbody] at hend
      cases hend
    · exact ⟨body, hbody, rfl⟩
  · obtain ⟨kept, c, comment, rfl, rfl, hkept⟩ := exists_comment hrest hmark hd
    have huncommented := uncommented_append (ne_blank_of_mark hmark hd).2 hrest hmark hkept
    have hcut := Sentinel.textOf_cut_append (expandTabs width (kept ++ c :: comment))
    obtain ⟨-, hends⟩ := isLine_expandTabs hline width
    rw [IsLine, List.dropLast_append_of_ne_nil (List.cons_ne_nil c comment)] at hline
    rw [huncommented]
    refine ⟨fun n ↦ ?_, kept, fun hmem ↦ hline (List.mem_append_left _ hmem), rfl⟩
    generalize hparts : Sentinel.cut (expandTabs width (kept ++ c :: comment)) = parts
      at hrest hkept hcut
    obtain ⟨sentinel, rest⟩ := parts
    obtain rfl : rest = before ++ c :: expandTabs width comment := hrest
    rw [← hcut, expandTabs_append, hkept, List.append_assoc]
    refine Segment.isUncommented_of_haltsAt ?_ hmark hd ?_ n
    · rw [hcut, hparts]
    · rw [← hcut, ← List.append_assoc, endsWith_append_of_ne_nil _ (List.cons_ne_nil _ _)] at hends
      rw [hends, hend]

theorem parts_of_cut_expandTabs {marker front comment : Text} {c : Char} (hc : c ≠ '\t')
    (hcut : (Sentinel.cut (expandTabs width (marker ++ front ++ c :: comment))).2 =
      expandTabs width (front ++ c :: comment)) :
    (Sentinel.cut (expandTabs width (marker ++ front ++ c :: comment))).2 =
        expandTabs width front ++ c :: expandTabs width comment ∧
      expandTabs width (marker ++ front) = Sentinel.textOf
        (Sentinel.cut (expandTabs width (marker ++ front ++ c :: comment))).1 ++
          expandTabs width front := by
  have hwhole : expandTabs width (marker ++ front ++ c :: comment) =
      expandTabs width (marker ++ front) ++ c :: expandTabs width comment := by
    rw [expandTabs_append width (marker ++ front), expandTabs_cons_of_ne _ hc]
  have hline := Sentinel.textOf_cut_append (expandTabs width (marker ++ front ++ c :: comment))
  rw [expandTabs_append width front, expandTabs_cons_of_ne _ hc] at hcut
  rw [hcut, ← List.append_assoc] at hline
  exact ⟨hcut, List.append_cancel_right (hwhole.symm.trans hline.symm)⟩

theorem IsSelfContained.of_width (hw : 0 < width) (hw' : 0 < width')
    (h : IsSelfContained width line) :
    IsSelfContained width' line ∧ uncommented width' line = uncommented width line := by
  obtain ⟨marker, rest, rfl, hcut⟩ := Sentinel.exists_cut_expandTabs line
  rcases isSelfContained_iff.mp h with hwalk | ⟨before, mark, hrest, hmark, hd⟩
  · have hwalk' := hwalk
    rw [hcut width hw, walk_expandTabs (r := .code) hw hw' trivial (by simp),
      ← hcut width' hw'] at hwalk'
    rw [uncommented_of_walk hwalk, uncommented_of_walk hwalk']
    exact ⟨isSelfContained_iff.mpr (Or.inl hwalk'), rfl⟩
  · obtain ⟨c, t, rfl, -⟩ := hmark.exists_cons
    have hc := ne_blank_of_mark hmark hd
    obtain ⟨front, comment, rfl, rfl, rfl⟩ :=
      exists_of_expandTabs_eq_append hc.1 ((hcut width hw).symm.trans hrest)
    rw [← List.append_assoc] at hcut ⊢
    obtain ⟨hbehind, hkept⟩ := parts_of_cut_expandTabs hc.2 (hcut width hw)
    obtain ⟨hbehind', hkept'⟩ := parts_of_cut_expandTabs hc.2 (hcut width' hw')
    have hmark' := hmark.of_width hw hw'
    have hd' := hd
    rw [window_expandTabs hw hw'] at hd'
    refine ⟨isSelfContained_iff.mpr (Or.inr ⟨_, _, hbehind', hmark', hd'⟩), ?_⟩
    rw [uncommented_append hc.2 hbehind hmark hkept, uncommented_append hc.2 hbehind' hmark' hkept']

end Text

end FreeForm
