import FreeForm.Declaration

namespace FreeForm

namespace Declaration

/-- Text whose parentheses match and nest at most `depth` deep. -/
inductive Balanced : (depth : Nat) → Text → Prop
  | nil (depth : Nat) : Balanced depth []
  | char {depth : Nat} {c : Char} {t : Text} (hc : c ≠ '(' ∧ c ≠ ')') (ht : Balanced depth t) :
      Balanced depth (c :: t)
  | group {depth : Nat} {u t : Text} (hu : Balanced depth u) (ht : Balanced (depth + 1) t) :
      Balanced (depth + 1) ('(' :: (u ++ ')' :: t))

/-- Text in parentheses that match; with the outer ones they nest at most `depthLimit` deep. -/
def IsGroup (t : Text) : Prop :=
  ∃ u, Balanced (depthLimit - 1) u ∧ t = '(' :: (u ++ [')'])

/-- Balanced text in front of each of the parentheses that close the `depth` open ones. -/
def ClosesAll : (depth : Nat) → Text → Prop
  | 0, t => t = []
  | depth + 1, t => ∃ u rest, Balanced (depthLimit - (depth + 1)) u ∧ t = u ++ ')' :: rest ∧
      ClosesAll depth rest

variable {depth n : Nat} {t u rest : Text}

theorem Balanced.cutClosing_append (h : Balanced n u) (hpos : 0 < depth)
    (hdepth : depth + n ≤ depthLimit) (rest : Text) : cutClosing depth (u ++ rest) =
      (cutClosing depth rest).map fun (v, rest) ↦ (u ++ v, rest) := by
  induction h generalizing depth rest with
  | nil =>
    rw [List.nil_append]
    cases cutClosing depth rest <;> rfl
  | char hc _ ih =>
    rw [List.cons_append, cutClosing, if_neg hc.1, if_neg hc.2, ih hpos hdepth, Option.map_map]
    rfl
  | group _ _ ihu iht =>
    have hlt : depth < depthLimit := by omega
    have hopen : ¬depth + 1 ≤ 1 := by omega
    rw [List.cons_append, List.append_assoc, List.cons_append, cutClosing, if_pos rfl, if_pos hlt,
      ihu (Nat.zero_lt_succ depth) (by omega), cutClosing, if_neg (by decide), if_pos rfl, if_neg hopen,
      Nat.succ_sub_one, iht hpos hdepth]
    simp [Option.map_map, Function.comp_def]

theorem IsGroup.cutGroup_append (h : IsGroup t) (rest : Text) : cutGroup (t ++ rest) = some (t, rest) := by
  obtain ⟨u, hu, rfl⟩ := h
  have hclosing := hu.cutClosing_append Nat.one_pos (by decide) (')' :: rest)
  rw [List.cons_append, List.append_assoc, List.singleton_append, cutGroup, hclosing, cutClosing]
  simp

theorem closesAll_of_cutClosing (hpos : 0 < depth) (hdepth : depth ≤ depthLimit)
    (h : cutClosing depth t = some (u, rest)) : ClosesAll depth u := by
  fun_induction cutClosing depth t generalizing u with
  | case1 => cases h
  | case2 depth t hlt ih =>
    obtain ⟨⟨v, rest⟩, hv, heq⟩ := Option.map_eq_some_iff.mp h
    obtain ⟨rfl, rfl⟩ := Prod.mk.inj heq
    have hcloses := ih (Nat.zero_lt_succ depth) hlt hv
    cases depth with
    | zero => cases hpos
    | succ depth =>
      obtain ⟨first, -, hfirst, rfl, second, w, hsecond, rfl, hw⟩ := hcloses
      have hn : depthLimit - (depth + 1) = depthLimit - (depth + 1 + 1) + 1 := by omega
      rw [hn] at hsecond
      refine ⟨'(' :: (first ++ ')' :: second), w, ?_, by simp, hw⟩
      rw [hn]
      exact .group hfirst hsecond
  | case3 => cases h
  | case4 depth t hopen hle =>
    obtain rfl : depth = 1 := by omega
    obtain ⟨rfl, rfl⟩ := Prod.mk.inj (Option.some.inj h)
    exact ⟨[], [], .nil _, rfl, rfl⟩
  | case5 depth t hopen hle ih =>
    obtain ⟨⟨v, rest⟩, hv, heq⟩ := Option.map_eq_some_iff.mp h
    obtain ⟨rfl, rfl⟩ := Prod.mk.inj heq
    have hcloses := ih (by omega) (by omega) hv
    cases depth with
    | zero => cases hpos
    | succ depth => exact ⟨[], v, .nil _, rfl, hcloses⟩
  | case6 depth c t hopen hclose ih =>
    obtain ⟨⟨v, rest⟩, hv, heq⟩ := Option.map_eq_some_iff.mp h
    obtain ⟨rfl, rfl⟩ := Prod.mk.inj heq
    have hcloses := ih hpos hdepth hv
    cases depth with
    | zero => cases hpos
    | succ depth =>
      obtain ⟨first, w, hfirst, rfl, hw⟩ := hcloses
      exact ⟨c :: first, w, .char ⟨hopen, hclose⟩ hfirst, rfl, hw⟩

theorem isGroup_of_cutGroup (h : cutGroup t = some (u, rest)) : IsGroup u := by
  rw [cutGroup.eq_def] at h
  split at h
  · obtain ⟨⟨v, rest⟩, hv, heq⟩ := Option.map_eq_some_iff.mp h
    obtain ⟨rfl, rfl⟩ := Prod.mk.inj heq
    obtain ⟨body, last, hbody, rfl, rfl⟩ := closesAll_of_cutClosing Nat.one_pos (by decide) hv
    exact ⟨body, hbody, rfl⟩
  · cases h

theorem isGroup_iff : IsGroup t ↔ cutGroup t = some (t, []) := by
  constructor
  · intro h
    simpa using h.cutGroup_append []
  · exact isGroup_of_cutGroup

instance : DecidablePred IsGroup := fun _ ↦ decidable_of_iff _ isGroup_iff.symm

end Declaration

end FreeForm
