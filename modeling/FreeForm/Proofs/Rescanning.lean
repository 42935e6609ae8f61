import FreeForm.Proofs.Halting

namespace FreeForm

open Text

namespace Scanner

theorem drainIn_sublist (s : Scanner) (t : Text) : (s.drainIn t).1.Sublist (indices s.offset t) := by
  induction t generalizing s with
  | nil => exact List.Sublist.refl _
  | cons c t ih =>
    rw [drainIn, read_eq, indices]
    split_ifs
    · exact List.nil_sublist _
    · exact (ih (s.pass c t)).cons _
    · exact (ih (s.pass c t)).cons_cons _

end Scanner

namespace Text

theorem pairwise_indices (offset : Nat) (t : Text) : (indices offset t).Pairwise fun a b ↦ a.1 ≤ b.1 := by
  induction t generalizing offset with
  | nil => exact List.Pairwise.nil
  | cons c t ih =>
    refine List.pairwise_cons.mpr ⟨fun item hitem ↦ ?_, ih _⟩
    exact Nat.le_trans (Nat.le_add_right offset c.utf8Size) (le_of_mem_indices hitem)

theorem exists_of_mem_indices {offset : Nat} {t : Text} {item : Placed} (h : item ∈ indices offset t) :
    ∃ front back, t = front ++ item.2 :: back ∧ item.1 = offset + byteLength front := by
  induction t generalizing offset with
  | nil => cases h
  | cons c t ih =>
    rcases List.mem_cons.mp h with rfl | h
    · exact ⟨[], t, rfl, rfl⟩
    · obtain ⟨front, back, rfl, hoffset⟩ := ih h
      exact ⟨c :: front, back, rfl, by rw [hoffset, byteLength_cons, Nat.add_assoc]⟩

end Text

namespace Statement

theorem map_splitMark (t : Text) : (splitMark .code false t).map (fun parts ↦ byteLength parts.1) =
    (Scanner.ofLine t ⟨true, true⟩).drain.2.haltedAt := by
  cases h : splitMark .code false t with
  | none =>
    have hwalk := (splitMark_eq_none_iff (by simp) false t).mp h
    rw [Scanner.haltedAt_of_walk hwalk, Option.map_none]
  | some parts =>
    obtain ⟨before, mark⟩ := parts
    obtain ⟨rfl, hhalts⟩ := (Region.splitMark_eq_some_iff (by simp)).mp h
    rw [Scanner.haltedAt_of_haltsAt hhalts, Option.map_some]

end Statement

namespace Cut

theorem le_of_markAt? {line : Text} {offset : Nat} {items : List Placed} {mark? : Option Nat}
    (hsorted : items.Pairwise fun a b ↦ a.1 ≤ b.1) (h : markAt? line offset items = some mark?)
    {item : Placed} (hitem : item ∈ items) {ahead : Text}
    (hahead : Marker.windowAt? line (offset + item.1) = some ahead) (hends : Marker.endsCode ahead) :
    ∃ mark ∈ mark?, mark ≤ offset + item.1 := by
  induction items with
  | nil => cases hitem
  | cons first items ih =>
    obtain ⟨hfirst, hsorted⟩ := List.pairwise_cons.mp hsorted
    obtain ⟨ahead', hahead', h⟩ := Option.bind_eq_some_iff.mp h
    by_cases hends' : Marker.endsCode ahead'
    · rw [if_pos hends'] at h
      obtain rfl := Option.some.inj h
      refine ⟨offset + first.1, rfl, Nat.add_le_add_left ?_ offset⟩
      rcases List.mem_cons.mp hitem with rfl | hitem
      · exact Nat.le_refl _
      · exact hfirst item hitem
    · rw [if_neg hends'] at h
      rcases List.mem_cons.mp hitem with rfl | hitem
      · rw [hahead] at hahead'
        exact absurd (Option.some.inj hahead' ▸ hends) hends'
      · exact ih hsorted h hitem

theorem exists_windowAt?_of_mem_indices (front : Text) {tail : Text} {item : Placed} (h : item ∈ indices 0 tail) :
    ∃ ahead, Marker.windowAt? (front ++ tail) (byteLength front + item.1) = some ahead := by
  obtain ⟨before, behind, rfl, hplace⟩ := exists_of_mem_indices h
  refine ⟨Marker.window (item.2 :: behind), ?_⟩
  rw [hplace, Nat.zero_add, ← byteLength_append, ← List.append_assoc, Marker.windowAt?, fromByte?_append,
    Option.map_some]

/-- From any place on, the first mark among the characters shown by a scan from code that does not hide comments
stands where a scan from code halts that does. The characters before that place show no mark. -/
theorem markAt?_eq_haltedAt (front tail : Text) :
    (Statement.splitMark .code false tail).map (fun parts ↦ byteLength (front ++ parts.1)) =
        (Scanner.ofLine tail ⟨true, true⟩).drain.2.haltedAt.map (byteLength front + ·) ∧
      markAt? (front ++ tail) (byteLength front) (Scanner.ofLine tail ⟨false, true⟩).drain.1 =
        some ((Scanner.ofLine tail ⟨true, true⟩).drain.2.haltedAt.map (byteLength front + ·)) ∧
      ∀ item ∈ (Scanner.ofLine tail ⟨false, true⟩).drain.1, ∃ ahead,
        Marker.windowAt? (front ++ tail) (byteLength front + item.1) = some ahead ∧
          (Marker.endsCode ahead →
            ∃ mark ∈ (Scanner.ofLine tail ⟨true, true⟩).drain.2.haltedAt, mark ≤ item.1) := by
  have hsplit : (Statement.splitMark .code false tail).map (fun parts ↦ byteLength (front ++ parts.1)) =
      (Scanner.ofLine tail ⟨true, true⟩).drain.2.haltedAt.map (byteLength front + ·) := by
    rw [← Statement.map_splitMark, Option.map_map]
    simp [Function.comp_def]
  have hmark := markAt?_ofLine front tail
  rw [hsplit] at hmark
  refine ⟨hsplit, hmark, fun item hitem ↦ ?_⟩
  have hshown : (Scanner.ofLine tail ⟨false, true⟩).drain.1.Sublist (indices 0 tail) :=
    Scanner.drainIn_sublist (Scanner.ofLine tail ⟨false, true⟩) tail
  obtain ⟨ahead, hahead⟩ := exists_windowAt?_of_mem_indices front (hshown.subset hitem)
  refine ⟨ahead, hahead, fun hends ↦ ?_⟩
  have hsorted := (pairwise_indices 0 _).sublist hshown
  obtain ⟨_, hmem, hle⟩ := le_of_markAt? hsorted hmark hitem hahead hends
  obtain ⟨mark, hhalted, rfl⟩ := Option.map_eq_some_iff.mp hmem
  exact ⟨mark, hhalted, Nat.le_of_add_le_add_left hle⟩

end Cut

end FreeForm
