import FreeForm.Proofs.Alignment
import FreeForm.Proofs.Halting

namespace FreeForm

open Text

namespace Scanner

theorem placesShown_append (offset : Nat) (front back : List Sight) :
    placesShown offset (front ++ back) =
      placesShown offset front ++ placesShown (offset + byteLength (front.map Prod.fst)) back := by
  induction front generalizing offset with
  | nil => rfl
  | cons a front ih =>
    obtain ⟨c, shown⟩ := a
    rw [List.cons_append, placesShown, placesShown, ih, List.map_cons, byteLength_cons, Nat.add_assoc]
    cases shown <;> rfl

end Scanner

namespace Statement

open Scanner

/-- The offsets behind the semicolons that end statements, the first of which starts at `offset`. -/
def stops : (offset : Nat) → List Statement → List Nat
  | _, [] => []
  | offset, s :: statements =>
    let stop := offset + byteLength s.text
    if s.separated then stop :: stops stop statements else stops stop statements

section

variable (offset : Nat) {statements : List Statement} {n : Nat}

theorem stops_append (front back : List Statement) : stops offset (front ++ back) =
    stops offset front ++ stops (offset + byteLength (front.flatMap text)) back := by
  induction front generalizing offset with
  | nil => rfl
  | cons s front ih =>
    rw [List.cons_append, stops, stops, ih, List.flatMap_cons, byteLength_append, Nat.add_assoc]
    cases s.separated <;> rfl

theorem length_stops : (stops offset statements).length = statements.countP separated := by
  induction statements generalizing offset with
  | nil => rfl
  | cons s statements ih =>
    rw [stops, List.countP_cons, ← ih]
    cases s.separated <;> rfl

theorem le_of_mem_stops (h : n ∈ stops offset statements) :
    n ≤ offset + byteLength (statements.flatMap text) := by
  induction statements generalizing offset with
  | nil => cases h
  | cons s statements ih =>
    have hrest : n ∈ stops (offset + byteLength s.text) statements →
        n ≤ offset + byteLength ((s :: statements).flatMap text) := by
      intro hn
      rw [List.flatMap_cons, byteLength_append, ← Nat.add_assoc]
      exact ih _ hn
    rw [stops] at h
    split at h
    · rcases List.mem_cons.mp h with rfl | h
      · rw [List.flatMap_cons, byteLength_append]
        omega
      · exact hrest h
    · exact hrest h

end

variable {sights : List Sight} {front back : List Statement} {s : Statement}

theorem separated_ofFinal (sights : List Sight) : (ofFinal sights).separated = false := by
  rw [ofFinal]
  split <;> rfl

theorem separated_ofSights (sights : List Sight) :
    (∀ s ∈ (ofSights sights).dropLast, s.separated) ∧
      ∀ s ∈ ofSights sights, s.separated → s.text = s.code ++ [';'] := by
  induction sights using cut_induction cutsBehind with
  | whole sights h => simp [ofSights_of_forall h, separated_ofFinal]
  | cut piece a rest h ha ih =>
    obtain ⟨c, shown⟩ := a
    obtain ⟨rfl, rfl⟩ : shown = true ∧ c = ';' := by simpa [cutsBehind] using ha
    rw [ofSights_append_cons h]
    by_cases hrest : rest = []
    · simp [hrest, text]
    · rw [List.isEmpty_eq_false_iff.mpr hrest, if_neg Bool.false_ne_true,
        List.dropLast_cons_of_ne_nil (ofSights_ne_nil rest)]
      exact ⟨List.forall_mem_cons.mpr ⟨rfl, ih.1⟩,
        List.forall_mem_cons.mpr ⟨fun _ ↦ by simp [text], ih.2⟩⟩

theorem filter_placesShown_of_forall (h : ∀ a ∈ sights, cutsBehind a = false) (offset : Nat) :
    (placesShown offset sights).filter (·.2 = ';') = [] := by
  induction sights generalizing offset with
  | nil => rfl
  | cons a sights ih =>
    obtain ⟨c, shown⟩ := a
    obtain ⟨ha, hsights⟩ := List.forall_mem_cons.mp h
    cases shown with
    | false => exact ih hsights _
    | true =>
      have hc : c ≠ ';' := by simpa [cutsBehind] using ha
      rw [placesShown, if_pos rfl, List.filter_cons, if_neg (by simpa using hc)]
      exact ih hsights _

theorem stops_ofSights (offset : Nat) (sights : List Sight) : stops offset (ofSights sights) =
    ((placesShown offset sights).filter (·.2 = ';')).map (·.1 + 1) := by
  induction sights using cut_induction cutsBehind generalizing offset with
  | whole sights h =>
    rw [ofSights_of_forall h, filter_placesShown_of_forall h, stops, separated_ofFinal]
    rfl
  | cut piece a rest h ha ih =>
    obtain ⟨c, shown⟩ := a
    obtain ⟨rfl, rfl⟩ : shown = true ∧ c = ';' := by simpa [cutsBehind] using ha
    have hstop : offset + byteLength (text ⟨piece.map Prod.fst, true, []⟩) =
        offset + byteLength (piece.map Prod.fst) + 1 := by
      simp [text, Nat.add_assoc, Char.utf8Size]
    have hrest : stops (offset + byteLength (piece.map Prod.fst) + 1)
          (if rest.isEmpty then [] else ofSights rest) =
        ((placesShown (offset + byteLength (piece.map Prod.fst) + 1) rest).filter
          (·.2 = ';')).map (·.1 + 1) := by
      by_cases hrest : rest = []
      · subst hrest
        rfl
      · rw [List.isEmpty_eq_false_iff.mpr hrest]
        exact ih _
    rw [ofSights_append_cons h, stops, hstop, hrest, placesShown_append, List.filter_append,
      filter_placesShown_of_forall h]
    rfl

theorem separated_iff_mem_stops (h : ofSights sights = front ++ s :: back) (offset : Nat) :
    s.separated ↔
      offset + byteLength ((front ++ [s]).flatMap text) ∈ stops offset (ofSights sights) := by
  rw [h, ← List.singleton_append, ← List.append_assoc, stops_append, stops_append]
  constructor
  · intro hs
    rw [List.flatMap_append, List.flatMap_singleton, byteLength_append, ← Nat.add_assoc]
    apply List.mem_append_left
    apply List.mem_append_right
    simp [stops, hs]
  · intro hmem
    by_contra hs
    -- Only the last statement can lack a semicolon, and the others end before it has any text.
    have hback : back = [] := by
      by_contra hback
      apply hs
      apply (separated_ofSights sights).1
      rw [h, List.dropLast_append_of_ne_nil (List.cons_ne_nil s back),
        List.dropLast_cons_of_ne_nil hback]
      exact List.mem_append_right _ List.mem_cons_self
    subst hback
    have hfront : offset + byteLength ((front ++ [s]).flatMap text) ∈ stops offset front := by
      simpa [stops, hs] using hmem
    have hle := le_of_mem_stops offset hfront
    have htext : byteLength s.text = 0 := by
      rw [List.flatMap_append, List.flatMap_singleton, byteLength_append] at hle
      omega
    have hsights : sights = [] := by
      by_contra hne
      have hpos := Cut.byteLength_pos (text_ne_nil_of_mem_ofSights hne s (by simp [h]))
      omega
    have hlength := congrArg List.length h
    rw [hsights, ofSights_of_forall (by simp)] at hlength
    have hnil : front = [] := by simpa using hlength
    rw [hnil] at hfront
    cases hfront

theorem getLast_stops_iff (h : ofSights sights = front ++ [s]) (offset : Nat) :
    (stops offset (ofSights sights)).getLast? = some (offset + byteLength (sights.map Prod.fst)) ↔
      s.separated := by
  have hiff := separated_iff_mem_stops h offset
  rw [← h, flatMap_text_ofSights] at hiff
  refine ⟨fun hlast ↦ hiff.mpr (List.mem_of_getLast? hlast), fun hs ↦ ?_⟩
  rw [← flatMap_text_ofSights, h, stops_append, stops, if_pos hs, stops, List.getLast?_concat,
    Nat.add_assoc, ← byteLength_append, List.flatMap_append, List.flatMap_singleton]

theorem length_ofSights (offset : Nat) (sights : List Sight) : (ofSights sights).length =
    if (stops offset (ofSights sights)).getLast? = some (offset + byteLength (sights.map Prod.fst)) then
      (stops offset (ofSights sights)).length
    else (stops offset (ofSights sights)).length + 1 := by
  obtain ⟨front, last, hsplit⟩ :=
    (List.eq_nil_or_concat' (ofSights sights)).resolve_left (ofSights_ne_nil sights)
  have hfront := (separated_ofSights sights).1
  rw [hsplit, List.dropLast_concat] at hfront
  simp only [getLast_stops_iff hsplit]
  rw [hsplit, length_stops, List.countP_append, List.countP_eq_length.mpr hfront]
  cases h : last.separated <;> simp [h]

theorem exists_of_mem_stops {offset n : Nat} {statements : List Statement}
    (h : n ∈ stops offset statements) : ∃ front s back, statements = front ++ s :: back ∧
      s.separated ∧ n = offset + byteLength ((front ++ [s]).flatMap text) := by
  induction statements generalizing offset with
  | nil => cases h
  | cons s statements ih =>
    have hrest : n ∈ stops (offset + byteLength s.text) statements →
        ∃ front s' back, s :: statements = front ++ s' :: back ∧ s'.separated ∧
          n = offset + byteLength ((front ++ [s']).flatMap text) := by
      intro hn
      obtain ⟨front, s', back, rfl, hs, rfl⟩ := ih hn
      refine ⟨s :: front, s', back, rfl, hs, ?_⟩
      rw [List.cons_append, List.flatMap_cons, byteLength_append, Nat.add_assoc]
    rw [stops] at h
    split at h
    · next hs =>
      rcases List.mem_cons.mp h with rfl | h
      · exact ⟨[], s, statements, rfl, hs, by simp⟩
      · exact hrest h
    · exact hrest h

theorem mem_semicolons_iff {body : Text} : (byteLength body, ';') ∈
      (placesShown 0 sights).filter (·.2 = ';') ↔
    byteLength (body ++ [';']) ∈ stops 0 (ofSights sights) := by
  have hstop : byteLength (body ++ [';']) = byteLength body + 1 := byteLength_append body [';']
  rw [stops_ofSights, hstop, List.mem_map]
  constructor
  · intro hmem
    exact ⟨_, hmem, rfl⟩
  · rintro ⟨⟨offset, c⟩, hmem, hoffset⟩
    obtain rfl : c = ';' := by simpa using (List.mem_filter.mp hmem).2
    obtain rfl : offset = byteLength body := Nat.succ.inj hoffset
    exact hmem

theorem separated_iff_shown (h : ofSights sights = front ++ s :: back) :
    s.separated ↔ ∃ body, s.text = body ++ [';'] ∧
      (byteLength (front.flatMap text ++ body), ';') ∈
        (placesShown 0 sights).filter (·.2 = ';') := by
  have hiff := separated_iff_mem_stops h 0
  rw [Nat.zero_add, List.flatMap_append, List.flatMap_singleton] at hiff
  constructor
  · intro hs
    have htext := (separated_ofSights sights).2 s (by simp [h]) hs
    refine ⟨s.code, htext, mem_semicolons_iff.mpr ?_⟩
    rw [List.append_assoc, ← htext]
    exact hiff.mp hs
  · rintro ⟨body, htext, hmem⟩
    apply hiff.mpr
    rw [htext, ← List.append_assoc]
    exact mem_semicolons_iff.mp hmem

theorem exists_of_mem_semicolons {item : Placed}
    (h : item ∈ (placesShown 0 sights).filter (·.2 = ';')) :
    ∃ front s back body, ofSights sights = front ++ s :: back ∧ s.text = body ++ [';'] ∧
      byteLength (front.flatMap text ++ body) = item.1 := by
  have hstop : item.1 + 1 ∈ stops 0 (ofSights sights) := by
    rw [stops_ofSights]
    exact List.mem_map_of_mem h
  obtain ⟨front, s, back, hsplit, hs, hn⟩ := exists_of_mem_stops hstop
  have htext := (separated_ofSights sights).2 s (by simp [hsplit]) hs
  have hlength : byteLength [';'] = 1 := rfl
  refine ⟨front, s, back, s.code, hsplit, htext, ?_⟩
  simp only [List.flatMap_append, List.flatMap_singleton, htext, byteLength_append, hlength] at hn ⊢
  omega

end Statement

namespace Segment

variable (line : Text) (lineNumber : Nat) (r : Region)

theorem map_toStatement_ofLine : (ofLine line lineNumber false r).1.map toStatement =
    Statement.ofSights (Region.sights r.carried false (Sentinel.cut line).2 []) := by
  rw [ofLine_code, map_toStatement_place, Statement.ofText_eq]

theorem map_sentinel_ofLine : (ofLine line lineNumber false r).1.map sentinel =
    (Sentinel.cut line).1 :: List.replicate ((ofLine line lineNumber false r).1.length - 1) none := by
  obtain ⟨s, rest, hstatements⟩ :=
    List.exists_cons_of_ne_nil (Statement.ofText_ne_nil (Sentinel.cut line).2 r)
  rw [ofLine_code, hstatements]
  simp [place, Function.comp_def, List.map_const']

/-- A line is cut behind each semicolon of its code, and nowhere else: what stands behind the last one, if
anything does, is the last segment. That one alone can have a comment, the first one alone a sentinel. -/
theorem cut_behind_semicolons :
    ∃ (rest : Text) (segments : List Segment) (semicolons : List Placed) (cuts : List Cut),
      rest = (Sentinel.cut line).2 ∧ segments = (ofLine line lineNumber false r).1 ∧
        semicolons = (Scanner.resume rest ⟨true, true⟩ r).drain.1.filter (·.2 = ';') ∧
        Cut.ofText? rest r = some cuts ∧
        segments.flatMap (·.text) = rest ∧
        (∀ front s back, segments = front ++ s :: back → (s.separated ↔ ∃ body,
          s.text = body ++ [';'] ∧ (byteLength (front.flatMap (·.text) ++ body), ';') ∈ semicolons)) ∧
        (∀ item ∈ semicolons, ∃ front s back body, segments = front ++ s :: back ∧
          s.text = body ++ [';'] ∧ byteLength (front.flatMap (·.text) ++ body) = item.1) ∧
        (∀ s ∈ segments.dropLast, s.separated) ∧
        segments.length = (if semicolons.getLast?.map (·.1 + 1) = some (byteLength rest) then
          semicolons.length else semicolons.length + 1) ∧
        segments.map (·.sentinel) =
          (Sentinel.cut line).1 :: List.replicate (segments.length - 1) none ∧
        (∀ s ∈ segments.dropLast, s.comment = []) ∧
        cuts.map Cut.trailing? = segments.map (fun s ↦ some s.comment) ∧
        ∀ s ∈ segments, s.lineNumber = lineNumber ∧ s.newline = endsWith '\n' line := by
  obtain ⟨cuts, hcuts, hstatements⟩ := Option.bind_eq_some_iff.mp
    (Statement.mapM_ofText? (Sentinel.cut line).2 r true)
  have hmap := map_toStatement_ofLine line lineNumber r
  have hcomment := Cut.map_trailing?_of_mapM hstatements
  rw [Statement.ofText_eq, ← hmap, List.map_map] at hcomment
  have hshown := Scanner.drain_resume_eq_placesShown (Sentinel.cut line).2 r
  have htext (segments : List Segment) :
      (segments.map toStatement).flatMap Statement.text = segments.flatMap (·.text) :=
    List.flatMap_map ..
  have hdropLast : ∀ s ∈ (ofLine line lineNumber false r).1.dropLast, s.toStatement ∈
      (Statement.ofSights (Region.sights r.carried false (Sentinel.cut line).2 [])).dropLast := by
    intro s hs
    rw [← hmap, ← List.map_dropLast]
    exact List.mem_map_of_mem hs
  refine ⟨_, _, _, cuts, rfl, rfl, rfl, hcuts, ?_, ?_, ?_, ?_, ?_, ?_, ?_, hcomment, ?_⟩
  · rw [← htext, hmap, Statement.flatMap_text_ofSights, Region.map_fst_sights]
  · intro front s back hsplit
    have hstatement := congrArg (List.map toStatement) hsplit
    rw [hmap, List.map_append, List.map_cons] at hstatement
    rw [hshown, ← htext]
    exact Statement.separated_iff_shown hstatement
  · intro item hitem
    rw [hshown] at hitem
    obtain ⟨front, s, back, body, hsplit, hbody, hoffset⟩ := Statement.exists_of_mem_semicolons hitem
    rw [← hmap] at hsplit
    obtain ⟨front, rest, hsegments, rfl, hrest⟩ := List.map_eq_append_iff.mp hsplit
    obtain ⟨s, back, rfl, rfl, rfl⟩ := List.map_eq_cons_iff.mp hrest
    rw [htext] at hoffset
    exact ⟨front, s, back, body, hsegments, hbody, hoffset⟩
  · intro s hs
    exact (Statement.separated_ofSights _).1 _ (hdropLast s hs)
  · have hlength := Statement.length_ofSights 0
      (Region.sights r.carried false (Sentinel.cut line).2 [])
    rw [Statement.stops_ofSights, Region.map_fst_sights, List.getLast?_map, List.length_map,
      Nat.zero_add, ← hshown, ← hmap, List.length_map] at hlength
    exact hlength
  · exact map_sentinel_ofLine line lineNumber r
  · intro s hs
    exact (Statement.comment_ofSights _).1 _ (hdropLast s hs)
  · intro s hs
    exact (of_mem_ofLine hs).2

end Segment

end FreeForm
