import FreeForm.Proofs.Marks

namespace FreeForm

open Text

namespace Text

theorem expandTabs_cons_tab (width : Nat) (t : Text) :
    expandTabs width ('\t' :: t) = List.replicate width ' ' ++ expandTabs width t := by
  simp [expandTabs]

theorem expandTabs_cons_of_ne (width : Nat) {c : Char} (hc : c ≠ '\t') (t : Text) :
    expandTabs width (c :: t) = c :: expandTabs width t := by
  simp [expandTabs, hc]

variable {width width' : Nat} {p : Char → Bool}

theorem head?_expandTabs (hw : 0 < width) (hw' : 0 < width') (t ahead : Text) :
    (expandTabs width t ++ ahead).head? = (expandTabs width' t ++ ahead).head? := by
  obtain ⟨k, rfl⟩ : ∃ k, width = k + 1 := ⟨width - 1, by omega⟩
  obtain ⟨k', rfl⟩ : ∃ k, width' = k + 1 := ⟨width' - 1, by omega⟩
  rcases t with _ | ⟨c, t⟩
  · rfl
  · by_cases hc : c = '\t'
    · rw [hc, expandTabs_cons_tab, expandTabs_cons_tab]
      rfl
    · rw [expandTabs_cons_of_ne _ hc, expandTabs_cons_of_ne _ hc]
      rfl

theorem dropWhile_expandTabs (hspace : p ' ') (htab : p '\t') (t : Text) :
    (expandTabs width t).dropWhile p = expandTabs width (t.dropWhile p) := by
  induction t with
  | nil => rfl
  | cons c t ih =>
    by_cases hc : c = '\t'
    · subst hc
      have hall : ∀ c ∈ List.replicate width ' ', p c := by
        intro c hc
        rw [List.eq_of_mem_replicate hc]
        exact hspace
      rw [expandTabs_cons_tab, List.dropWhile_append_of_pos hall, List.dropWhile_cons_of_pos htab, ih]
    · rw [expandTabs_cons_of_ne _ hc]
      by_cases hp : p c
      · rw [List.dropWhile_cons_of_pos hp, List.dropWhile_cons_of_pos hp, ih]
      · rw [List.dropWhile_cons_of_neg hp, List.dropWhile_cons_of_neg hp, expandTabs_cons_of_ne _ hc]

theorem tab_not_mem_expandTabs (width : Nat) (t : Text) : '\t' ∉ expandTabs width t := by
  intro h
  obtain ⟨c, -, hc⟩ := List.mem_flatMap.mp h
  split at hc
  · cases List.eq_of_mem_replicate hc
  · next hne => exact hne (List.mem_singleton.mp hc).symm

theorem exists_of_expandTabs_eq_cons (hw : 0 < width) {t mark : Text} {c : Char} (hc : c ≠ ' ')
    (h : expandTabs width t = c :: mark) :
    ∃ behind, t = c :: behind ∧ expandTabs width behind = mark := by
  obtain ⟨k, rfl⟩ : ∃ k, width = k + 1 := ⟨width - 1, by omega⟩
  rcases t with _ | ⟨d, t⟩
  · cases h
  · by_cases hd : d = '\t'
    · rw [hd, expandTabs_cons_tab, List.replicate_succ] at h
      exact absurd (List.cons.inj h).1.symm hc
    · rw [expandTabs_cons_of_ne _ hd] at h
      obtain ⟨rfl, ht⟩ := List.cons.inj h
      exact ⟨t, rfl, ht⟩

theorem exists_of_expandTabs_eq_append {t front mark : Text} {c : Char} (hc : c ≠ ' ')
    (h : expandTabs width t = front ++ c :: mark) :
    ∃ before behind, t = before ++ c :: behind ∧ expandTabs width before = front ∧
      expandTabs width behind = mark := by
  induction t generalizing front with
  | nil => simp at h
  | cons d t ih =>
    by_cases hd : d = '\t'
    · rw [hd, expandTabs_cons_tab] at h
      rcases List.append_eq_append_iff.mp h with ⟨rest, rfl, ht⟩ | ⟨tail, hfront, ht⟩
      · obtain ⟨before, behind, rfl, rfl, hbehind⟩ := ih ht
        refine ⟨'\t' :: before, behind, by rw [hd]; rfl, expandTabs_cons_tab _ _, hbehind⟩
      · cases tail with
        | nil =>
          rw [List.append_nil] at hfront
          have ht' : expandTabs width t = [] ++ c :: mark := ht.symm
          obtain ⟨before, behind, rfl, hbefore, hbehind⟩ := ih ht'
          refine ⟨'\t' :: before, behind, by rw [hd]; rfl, ?_, hbehind⟩
          rw [expandTabs_cons_tab, hbefore, List.append_nil, hfront]
        | cons a tail =>
          obtain ⟨rfl, -⟩ := List.cons.inj ht
          have hmem : c ∈ List.replicate width ' ' := by simp [hfront]
          exact absurd (List.eq_of_mem_replicate hmem) hc
    · rw [expandTabs_cons_of_ne _ hd] at h
      rcases front with _ | ⟨a, front⟩
      · obtain ⟨rfl, rfl⟩ := List.cons.inj h
        exact ⟨[], t, rfl, rfl, rfl⟩
      · obtain ⟨rfl, ht⟩ := List.cons.inj h
        obtain ⟨before, behind, rfl, rfl, hbehind⟩ := ih ht
        exact ⟨d :: before, behind, rfl, expandTabs_cons_of_ne _ hd _, hbehind⟩

end Text

namespace Sentinel

variable {width : Nat}

theorem cutName_expandTabs (hw : 0 < width) (t : Text) :
    cutName (expandTabs width t) = ((cutName t).1, expandTabs width (cutName t).2) := by
  obtain ⟨k, rfl⟩ : ∃ k, width = k + 1 := ⟨width - 1, by omega⟩
  induction t using cut_induction (· == '\t') with
  | whole t h =>
    have hname := cutName_append t
    have htab : '\t' ∉ t := fun hmem ↦ by simpa using h '\t' hmem
    have hrest : '\t' ∉ (cutName t).2 := fun hmem ↦ htab (hname ▸ List.mem_append_right _ hmem)
    rw [expandTabs_of_not_mem _ htab, expandTabs_of_not_mem _ hrest]
  | cut front c t h hc _ =>
    obtain rfl := eq_of_beq hc
    have hname := cutName_append front
    have htab : '\t' ∉ front := fun hmem ↦ by simpa using h '\t' hmem
    have hrest : '\t' ∉ (cutName front).2 := fun hmem ↦
      htab (hname ▸ List.mem_append_right _ hmem)
    rw [expandTabs_append, expandTabs_of_not_mem _ htab, expandTabs_cons_tab, List.replicate_succ,
      List.cons_append, cutName_append_cons (by decide), cutName_append_cons (by decide),
      expandTabs_append, expandTabs_of_not_mem _ hrest, expandTabs_cons_tab, List.replicate_succ,
      List.cons_append]

theorem dropWhile_space_expandTabs (width : Nat) (t : Text) :
    (expandTabs width t).dropWhile (· = ' ') =
      expandTabs width (t.dropWhile fun c ↦ c = ' ' || c = '\t') := by
  have hcongr : ∀ u : Text, '\t' ∉ u →
      u.dropWhile (· = ' ') = u.dropWhile fun c ↦ c = ' ' || c = '\t' := by
    intro u hu
    induction u with
    | nil => rfl
    | cons c u ih =>
      obtain ⟨hc, hu⟩ : '\t' ≠ c ∧ '\t' ∉ u := by simpa using hu
      simp only [List.dropWhile_cons, ih hu, Ne.symm hc, decide_false, Bool.or_false]
  rw [hcongr _ (tab_not_mem_expandTabs width t)]
  apply dropWhile_expandTabs
  · rfl
  · rfl

theorem cut_expandTabs_of_none (hw : 0 < width) {line : Text} (h : (cut line).1 = none) :
    (cut (expandTabs width line)).1 = none := by
  rw [cut_fst_eq_none_iff] at h ⊢
  rw [dropWhile_expandTabs rfl rfl]
  rintro ⟨x, hx⟩
  obtain ⟨y, hy, hx⟩ := exists_of_expandTabs_eq_cons hw (by decide) hx.symm
  obtain ⟨z, rfl, -⟩ := exists_of_expandTabs_eq_cons hw (by decide) hx
  exact h ⟨z, hy.symm⟩

/-- Whatever the width of the tabs, what stands behind the sentinel is the same. -/
theorem exists_cut_expandTabs (line : Text) : ∃ marker rest, line = marker ++ rest ∧
    ∀ width, 0 < width → (cut (expandTabs width line)).2 = expandTabs width rest := by
  by_cases h : (cut line).1 = none
  · refine ⟨[], line, rfl, fun width hw ↦ ?_⟩
    rw [cut_eq_of_fst (cut_expandTabs_of_none hw h)]
  · obtain ⟨x, hx⟩ := exists_of_cut_ne_none h
    refine ⟨line.takeWhile isBlank ++ '!' :: '$' :: ((cutName x).1 ++
      (cutName x).2.takeWhile fun c ↦ c = ' ' || c = '\t'),
      (cutName x).2.dropWhile fun c ↦ c = ' ' || c = '\t', ?_, fun width hw ↦ ?_⟩
    · have hline := List.takeWhile_append_dropWhile (p := isBlank) (l := line)
      rw [hx, ← cutName_append x] at hline
      simp [hline]
    · have hdrop : (expandTabs width line).dropWhile isBlank =
          '!' :: '$' :: expandTabs width x := by
        rw [dropWhile_expandTabs rfl rfl, hx]
        rfl
      rw [cut_of_dropWhile hdrop, cutName_expandTabs hw]
      exact dropWhile_space_expandTabs width _

end Sentinel

namespace Region

open Marker

variable {r : Region} {closing : Bool} {width width' : Nat}

theorem IsProper.step (h : r.IsProper) (closing : Bool) (c : Char) (rest : Text) :
    (r.step closing c rest).region.IsProper :=
  h.walk closing [c] rest

theorem walk_expandTabs (hw : 0 < width) (hw' : 0 < width') (hr : r.IsProper) {t : Text}
    (hclosing : closing = true → t.head? ≠ some '\t') (ahead : Text) :
    walk r closing (expandTabs width t) ahead = walk r closing (expandTabs width' t) ahead := by
  induction t generalizing r closing with
  | nil => rfl
  | cons c t ih =>
    by_cases hc : c = '\t'
    · subst hc
      obtain rfl : closing = false := by
        rw [← Bool.not_eq_true]
        exact fun h ↦ hclosing h rfl
      have hblank (k : Nat) (ahead : Text) : walk r false (List.replicate k ' ') ahead = (r, false) := by
        apply walk_of_isPlain hr
        intro d hd
        rw [List.eq_of_mem_replicate hd]
        decide
      rw [expandTabs_cons_tab, expandTabs_cons_tab, walk_append, walk_append, hblank, hblank]
      exact ih hr (by simp)
    · have hstep : r.step closing c (expandTabs width t ++ ahead) =
          r.step closing c (expandTabs width' t ++ ahead) :=
        step_congr (head?_expandTabs hw hw' t ahead)
      rw [expandTabs_cons_of_ne _ hc, expandTabs_cons_of_ne _ hc, walk, walk, ← hstep]
      apply ih (hr.step _ _ _)
      -- In front of a tab nothing opens the closer of a span, since a space is none.
      intro hcloses htab
      obtain ⟨k, rfl⟩ : ∃ k, width = k + 1 := ⟨width - 1, by omega⟩
      obtain ⟨u, rfl⟩ := List.head?_eq_some_iff.mp htab
      rw [expandTabs_cons_tab, List.replicate_succ, List.cons_append, List.cons_append,
        step_closing_of_isSigil rfl] at hcloses
      cases hcloses

theorem window_expandTabs (hw : 0 < width) (hw' : 0 < width') (c : Char) (t : Text) :
    window (c :: expandTabs width t) = window (c :: expandTabs width' t) := by
  have hhead := head?_expandTabs hw hw' t []
  rw [List.append_nil, List.append_nil] at hhead
  generalize expandTabs width t = u at hhead
  generalize expandTabs width' t = u' at hhead
  cases u <;> cases u' <;> simp_all [window]

theorem HaltsAt.of_width (hw : 0 < width) (hw' : 0 < width') {before mark : Text} {c : Char}
    (h : HaltsAt .code false (expandTabs width before) (c :: expandTabs width mark)) :
    HaltsAt .code false (expandTabs width' before) (c :: expandTabs width' mark) := by
  obtain ⟨hwalk, hopener, hends⟩ := h
  rw [window_expandTabs hw hw'] at hopener hends
  have hahead : (c :: expandTabs width' mark).head? = (c :: expandTabs width mark).head? := rfl
  refine ⟨?_, hopener, hends⟩
  rw [← hwalk, walk_expandTabs (r := .code) hw' hw trivial (by simp)]
  exact (walk_sights_congr hahead).1

end Region

end FreeForm
