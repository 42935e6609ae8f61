import FreeForm.Proofs.Joining
import FreeForm.Proofs.Marks
import FreeForm.Proofs.Searching

namespace FreeForm

open Text Regex

namespace Sentinel

/-- The name of a mark, in either case. None of its letters has a variant outside ASCII. -/
def IsName (t : Text) : Prop :=
  t.map Char.toLower = ['o', 'm', 'p']

namespace Form

def mark : Regex Unit :=
  .capture () (.seq (word ['!', '$']) (.opt (word ['o', 'm', 'p'])))

def marker : Regex Unit :=
  .seq mark (.star (.one (· = ' ')))

/-- To be matched at the start. -/
def sentinel : Regex Unit :=
  .seq (.star (.one isBlank)) marker

end Form

variable {line name t rest : Text} {s : Sentinel}

theorem cutName_eq (t : Text) : cutName t = (cutWord ['o', 'm', 'p'] t).getD ([], t) := by
  rcases t with _ | ⟨a, _ | ⟨b, _ | ⟨c, t⟩⟩⟩
  · rfl
  · by_cases ha : a.toLower = 'o' <;> simp [cutName, cutWord, ha]
  · by_cases ha : a.toLower = 'o' <;> by_cases hb : b.toLower = 'm' <;> simp [cutName, cutWord, ha, hb]
  · by_cases ha : a.toLower = 'o' <;> by_cases hb : b.toLower = 'm' <;> by_cases hc : c.toLower = 'p' <;>
      simp [cutName, cutWord, ha, hb, hc]

theorem cutName_cases (t : Text) :
    (∃ name rest, IsName name ∧ t = name ++ rest ∧ cutName t = (name, rest)) ∨
      (∀ name rest, IsName name → t ≠ name ++ rest) ∧ cutName t = ([], t) := by
  rw [cutName_eq]
  cases h : cutWord ['o', 'm', 'p'] t with
  | some parts =>
    obtain ⟨ht, hname⟩ := cutWord_eq_some_iff.mp h
    exact .inl ⟨parts.1, parts.2, hname, ht, rfl⟩
  | none =>
    refine .inr ⟨fun name rest hname ht ↦ ?_, rfl⟩
    rw [cutWord_eq_some_iff.mpr ⟨ht, hname⟩] at h
    cases h

theorem first_name (t : Text) : (opt (word ['o', 'm', 'p']) : Regex Unit).first (fun _ ↦ true) t =
    some ([], (cutName t).2) := by
  rw [first_opt, first_word, cutName_eq]
  cases cutWord ['o', 'm', 'p'] t <;> rfl

theorem first_mark (t : Text) : Form.mark.first (fun _ ↦ true) ('!' :: '$' :: t) =
    some ([((), '!' :: '$' :: (cutName t).1)], (cutName t).2) := by
  have hsplit : '!' :: '$' :: t = '!' :: '$' :: (cutName t).1 ++ (cutName t).2 := by
    rw [List.cons_append, List.cons_append, cutName_append]
  have hmark : cutWord ['!', '$'] ('!' :: '$' :: t) = some (['!', '$'], t) :=
    cutWord_eq_some_iff.mpr ⟨rfl, rfl⟩
  refine first_capture_of_append () hsplit ?_
  rw [first_seq_word, hmark]
  exact first_name t

theorem first_mark_of_not (h : ¬['!', '$'] <+: t) : Form.mark.first (fun _ ↦ true) t = none := by
  refine first_capture_of_none () ?_
  rw [first_seq_word]
  cases hcut : cutWord ['!', '$'] t with
  | none => rfl
  | some parts =>
    obtain ⟨ht, hmark⟩ := cutWord_eq_some_iff.mp hcut
    rw [map_toLower_eq_iff (by decide)] at hmark
    exact absurd ⟨parts.2, by rw [ht, hmark]⟩ h

theorem first_marker (t : Text) : Form.marker.first (fun _ ↦ true) t =
    (Form.mark.first (fun _ ↦ true) t).map fun m ↦ (m.1, m.2.dropWhile (· = ' ')) := by
  have hgap (t : Text) : (star (one (· = ' ')) : Regex Unit).first (fun _ ↦ true) t =
      some ([], t.dropWhile (· = ' ')) := by
    rw [first_star_one (fun _ _ _ ↦ rfl), if_pos rfl]
  have hany (t : Text) : ((star (one (· = ' ')) : Regex Unit).first (fun _ ↦ true) t).isSome =
      (fun _ ↦ true) t := by
    rw [hgap]
    rfl
  rw [Form.marker, first_seq hany]
  cases Form.mark.first (fun _ ↦ true) t with
  | none => rfl
  | some m => simp [hgap, Match.prepend]

theorem match?_sentinel (line : Text) :
    Form.sentinel.match? line = (cut line).1.map fun s ↦ ([((), s.mark)], (cut line).2) := by
  have hblank : ∀ c t, isBlank c → Form.marker.first (fun _ ↦ true) (c :: t) = none := by
    intro c t hc
    have hstart : ¬['!', '$'] <+: c :: t := by
      rw [List.cons_prefix_cons]
      rintro ⟨rfl, -⟩
      cases hc
    rw [first_marker, first_mark_of_not hstart, Option.map_none]
  rw [match?_eq_first, Form.sentinel, first_seq_star_of_none hblank, first_marker]
  by_cases h : ['!', '$'] <+: line.dropWhile isBlank
  · obtain ⟨t, ht⟩ := h
    rw [cut_of_dropWhile ht.symm, ← ht]
    exact congrArg _ (first_mark t)
  · rw [cut_fst_eq_none_iff.mpr h, first_mark_of_not h]
    rfl

/-- The sentinel `s` and `rest`, which is what is left, make up `line`, and nothing more can be cut off. -/
structure IsCutFrom (s : Sentinel) (rest line : Text) : Prop where
  append : s.text ++ rest = line
  marker : s.marker = trimStart s.text
  mark : (∃ name t, IsName name ∧ trimStart line = '!' :: '$' :: (name ++ t) ∧ s.mark = '!' :: '$' :: name) ∨
    (∀ name t, IsName name → trimStart line ≠ '!' :: '$' :: (name ++ t)) ∧ s.mark = ['!', '$']
  gap : ∀ c ∈ s.gap, c = ' '
  head_ne : rest.head? ≠ some ' '
  newline_not_mem : IsLine line → '\n' ∉ s.text

theorem trimStart_text {t : Text} (hindent : ∀ c ∈ s.indent, isBlank c) (hmark : s.mark = '!' :: t) :
    trimStart s.text = s.marker := by
  rw [text, trimStart, List.dropWhile_append_of_pos hindent, marker, hmark, List.cons_append,
    List.dropWhile_cons_of_neg (by decide)]

theorem newline_not_mem_text (hline : IsLine (s.text ++ rest)) (hmarker : '\n' ∉ s.marker)
    (hne : s.marker ≠ []) : '\n' ∉ s.text := by
  intro hmem
  rw [text] at hline hmem
  have hindent := (List.mem_append.mp hmem).resolve_right hmarker
  apply hline
  rw [List.append_assoc, List.dropLast_append_of_ne_nil (by simp [hne])]
  exact List.mem_append_left _ hindent

theorem exists_of_cut (h : (cut line).1 = some s) : ∃ t, trimStart line = '!' :: '$' :: t ∧
    s = ⟨line.takeWhile isBlank, '!' :: '$' :: (cutName t).1, (cutName t).2.takeWhile (· = ' ')⟩ ∧
      (cut line).2 = (cutName t).2.dropWhile (· = ' ') := by
  obtain ⟨t, ht⟩ : ['!', '$'] <+: trimStart line := by
    by_contra hnot
    rw [cut_fst_eq_none_iff.mpr hnot] at h
    cases h
  have hcut := cut_of_dropWhile ht.symm
  rw [hcut] at h ⊢
  exact ⟨t, ht.symm, (Option.some.inj h).symm, rfl⟩

theorem isCutFrom_cut (h : (cut line).1 = some s) : IsCutFrom s (cut line).2 line := by
  have happend := textOf_cut_append line
  have hmarker := newline_not_mem_markerOf_cut line
  rw [h] at happend hmarker
  obtain ⟨t, ht, rfl, hrest⟩ := exists_of_cut h
  refine ⟨happend, (trimStart_text (fun c hc ↦ List.mem_takeWhile_imp hc) rfl).symm, ?_, fun c hc ↦ ?_, ?_,
    fun hline ↦ newline_not_mem_text (happend.symm ▸ hline) hmarker (List.cons_ne_nil _ _)⟩
  · rcases cutName_cases t with ⟨name, rest, hname, rfl, hcut⟩ | ⟨hnot, hcut⟩
    · exact .inl ⟨name, rest, hname, ht, by rw [hcut]⟩
    · refine .inr ⟨fun name rest hname heq ↦ hnot name rest hname ?_, by rw [hcut]⟩
      rw [ht] at heq
      exact (List.cons.inj (List.cons.inj heq).2).2
  · have hspace := List.mem_takeWhile_imp (p := fun c ↦ decide (c = ' ')) hc
    exact of_decide_eq_true hspace
  · intro hhead
    have hspace := List.head?_dropWhile_not (fun c ↦ decide (c = ' ')) (cutName t).2
    rw [← hrest, hhead] at hspace
    cases hspace

/-- A line has a sentinel exactly if a mark stands behind the blanks at its start. The sentinel is what its
expression matches, with the mark captured, and no more than that can be cut off. -/
theorem cut_maximal (line : Text) :
    Form.sentinel.match? line = ((cut line).1.map fun s ↦ ([((), s.mark)], (cut line).2)) ∧
      ((cut line).1.isSome ↔ ['!', '$'] <+: trimStart line) ∧
      ((cut line).1 = none → (cut line).2 = line) ∧
      ∀ s, (cut line).1 = some s → IsCutFrom s (cut line).2 line := by
  refine ⟨match?_sentinel line, ?_, fun h ↦ by rw [cut_eq_of_fst h], fun s h ↦ isCutFrom_cut h⟩
  rw [← not_iff_not, Bool.not_eq_true, Option.isSome_eq_false_iff, Option.isNone_iff_eq_none]
  exact cut_fst_eq_none_iff

example : cut "\t !$Omp  do\n".toList =
    (some ⟨['\t', ' '], ['!', '$', 'O', 'm', 'p'], [' ', ' ']⟩, "do\n".toList) := by
  decide

end Sentinel

end FreeForm
