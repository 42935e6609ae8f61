import FreeForm.LogicalLine
import Mathlib.Data.List.DropRight
import Mathlib.Data.List.TakeWhile

namespace FreeForm

namespace Text

theorem expandTabs_of_not_mem (width : Nat) {t : Text} (h : '\t' ∉ t) : expandTabs width t = t := by
  induction t with
  | nil => rfl
  | cons c t ih =>
    obtain ⟨hc, ht⟩ : '\t' ≠ c ∧ '\t' ∉ t := by simpa using h
    have hs := ih ht
    rw [expandTabs] at hs ⊢
    rw [List.flatMap_cons, hs, if_neg (Ne.symm hc)]
    rfl

theorem dropEndsWhile_infix_self (p : Char → Bool) (t : Text) : dropEndsWhile p t <:+: t :=
  (List.rdropWhile_prefix p (t.dropWhile p)).isInfix.trans (List.dropWhile_suffix p).isInfix

theorem mem_of_mem_trim {t : Text} {c : Char} (h : c ∈ trim t) : c ∈ t :=
  (dropEndsWhile_infix_self isBlank t).subset h

theorem isBlank_of_getLast_trim {t : Text} {c : Char} (h : c ∈ (trim t).getLast?) :
    isBlank c = false := by
  have hne : trim t ≠ [] := by
    intro hnil
    simp [hnil] at h
  have hlast : ¬isBlank ((trim t).getLast hne) :=
    List.rdropWhile_last_not isBlank (t.dropWhile isBlank) hne
  rw [List.getLast?_eq_some_getLast hne] at h
  rw [← Option.some.inj h]
  simpa using hlast

section

variable {p : Char → Bool} {s t : Text}

theorem dropEndWhile_append_singleton (p : Char → Bool) (t : Text) (c : Char) :
    dropEndWhile p (t ++ [c]) = if p c then dropEndWhile p t else t ++ [c] :=
  List.rdropWhile_concat p t c

theorem dropEndsWhile_eq_nil_iff : dropEndsWhile p t = [] ↔ ∀ c ∈ t, p c := by
  have hends : dropEndsWhile p t = [] ↔ ∀ c ∈ t.dropWhile p, p c := List.rdropWhile_eq_nil_iff
  rw [hends, ← List.dropWhile_eq_nil_iff, List.dropWhile_idempotent, List.dropWhile_eq_nil_iff]

theorem trim_eq_nil_iff : trim t = [] ↔ isBlankText t :=
  dropEndsWhile_eq_nil_iff.trans List.all_eq_true.symm

theorem dropWhile_append_of_exists (h : ∃ c ∈ s, p c = false) :
    (s ++ t).dropWhile p = s.dropWhile p ++ t := by
  have hne : (s.dropWhile p).isEmpty = false := by
    obtain ⟨c, hc, hp⟩ := h
    rw [List.isEmpty_eq_false_iff, Ne, List.dropWhile_eq_nil_iff]
    intro hall
    simp [hall c hc] at hp
  simp [List.dropWhile_append, hne]

theorem dropEndWhile_append_of_exists (h : ∃ c ∈ t, p c = false) :
    dropEndWhile p (s ++ t) = s ++ dropEndWhile p t := by
  have hr : ∃ c ∈ t.reverse, p c = false := by simpa using h
  rw [dropEndWhile, List.reverse_append, dropWhile_append_of_exists hr, List.reverse_append,
    List.reverse_reverse, dropEndWhile]

theorem dropEndsWhile_append (hs : ∃ c ∈ s, p c = false) (ht : ∃ c ∈ t, p c = false) :
    dropEndsWhile p (s ++ t) = s.dropWhile p ++ dropEndWhile p t := by
  rw [dropEndsWhile, dropWhile_append_of_exists hs, dropEndWhile_append_of_exists ht]

theorem dropEndWhile_of_getLast (h : ∀ c ∈ t.getLast?, p c = false) : dropEndWhile p t = t := by
  rcases List.eq_nil_or_concat t with rfl | ⟨t, c, rfl⟩
  · rfl
  · rw [List.concat_eq_append] at h ⊢
    have hc : p c = false := h c (by simp)
    rw [dropEndWhile_append_singleton, hc]
    rfl

theorem dropEndWhile_of_not_mem {c : Char} (h : c ∉ t) : dropEndWhile (· = c) t = t := by
  apply dropEndWhile_of_getLast
  intro d hd
  rw [decide_eq_false_iff_not]
  rintro rfl
  exact h (List.mem_of_getLast? hd)

theorem head?_dropEndWhile (h : ∃ c ∈ t, p c = false) : (dropEndWhile p t).head? = t.head? := by
  have hne : dropEndWhile p t ≠ [] := by
    intro hnil
    obtain ⟨c, hc, hp⟩ := h
    simp [List.rdropWhile_eq_nil_iff.mp hnil c hc] at hp
  have hstart : dropEndWhile p t <+: t := List.rdropWhile_prefix p t
  rw [List.head?_eq_some_head hne, List.head?_eq_some_head (hstart.ne_nil hne), hstart.head hne]

theorem getLast?_of_suffix (h : s <:+ t) {c : Char} (hc : c ∈ s.getLast?) : c ∈ t.getLast? := by
  obtain ⟨front, rfl⟩ := h
  rw [List.getLast?_append, hc]
  rfl

theorem mem_dropWhile {c : Char} (hc : c ∈ t) (hp : p c = false) : c ∈ t.dropWhile p := by
  rw [← List.takeWhile_append_dropWhile (p := p) (l := t), List.mem_append] at hc
  rcases hc with hc | hc
  · have hpos := List.all_eq_true.mp List.all_takeWhile c hc
    simp [hp] at hpos
  · exact hc

end

theorem trim_append_blank (t : Text) {c : Char} (hc : isBlank c) : trim (t ++ [c]) = trim t := by
  by_cases h : ∃ c ∈ t, isBlank c = false
  · rw [trim, dropEndsWhile, dropWhile_append_of_exists h, dropEndWhile_append_singleton, if_pos hc]
    rfl
  · have hblank : isBlankText t := by
      simpa [isBlankText] using h
    have hblank' : isBlankText (t ++ [c]) := by
      simp [isBlankText, List.all_append, hc, show t.all isBlank from hblank]
    rw [trim_eq_nil_iff.mpr hblank, trim_eq_nil_iff.mpr hblank']

theorem endsWith_concat (t : Text) (c : Char) : endsWith c (t ++ [c]) := by
  simp [endsWith]

theorem not_endsWith_of_not_mem {t : Text} {c : Char} (h : c ∉ t) : endsWith c t = false := by
  simp only [endsWith, beq_eq_false_iff_ne]
  intro he
  exact h (List.mem_of_getLast? he)

end Text

open Text

namespace Sentinel

theorem cut_fst_eq_none_iff {t : Text} :
    (cut t).1 = none ↔ ¬['!', '$'] <+: t.dropWhile isBlank := by
  unfold cut
  split
  · next rest h => simp [h]
  · next h =>
    refine iff_of_true rfl fun hp ↦ ?_
    obtain ⟨rest, hrest⟩ := hp
    exact h rest hrest.symm

theorem cut_eq_of_fst {t : Text} (h : (cut t).1 = none) : cut t = (none, t) := by
  have ht := textOf_cut_append t
  rw [h] at ht
  exact Prod.ext h ht

theorem cut_fst_of_not_mem {t : Text} (h : '!' ∉ t) : (cut t).1 = none :=
  cut_fst_eq_none_iff.mpr fun hp ↦
    h ((List.dropWhile_suffix isBlank).subset (hp.subset (by simp)))

theorem cut_fst_append_cons {s t : Text} {c : Char} (hs : (cut s).1 = none)
    (ht : (cut (c :: t)).1 = none) (hc : c ≠ '$') : (cut (s ++ c :: t)).1 = none := by
  rw [cut_fst_eq_none_iff] at hs ht ⊢
  rw [List.dropWhile_append]
  split
  · exact ht
  · intro hp
    rcases hd : s.dropWhile isBlank with _ | ⟨a, _ | ⟨b, rest⟩⟩
    · simp_all
    · rw [hd] at hp
      simp [Ne.symm hc] at hp
    · rw [hd] at hs hp
      exact hs (by simpa using hp)

theorem cut_fst_of_append {s t : Text} (h : (cut (s ++ t)).1 = none) : (cut s).1 = none := by
  rw [cut_fst_eq_none_iff] at h ⊢
  intro hp
  have hd : (s.dropWhile isBlank).isEmpty = false := by
    obtain ⟨rest, hrest⟩ := hp
    rw [← hrest]
    rfl
  rw [List.dropWhile_append, hd] at h
  exact h (hp.trans (List.prefix_append _ _))

end Sentinel

theorem LogicalLine.join_append {code ending : Text} (hblank : isBlankText code = false)
    (hcode : '\n' ∉ code) (hending : ending = [] ∨ ending = ['\n']) (s : Segment) :
    join (code ++ ending) s = code ++ s.core ++ s.lineEnd := by
  have hkept : dropEndWhile (· = '\n') (code ++ ending) = code := by
    have hlast := dropEndWhile_of_not_mem hcode
    rcases hending with rfl | rfl
    · rwa [List.append_nil]
    · rwa [dropEndWhile_append_singleton, if_pos (by decide)]
  have hnot : isBlankText (code ++ ending) = false := by
    rw [isBlankText, List.all_append, Bool.and_eq_false_iff]
    exact Or.inl hblank
  rw [join, hnot, if_neg Bool.false_ne_true, hkept]

section

variable {u v : Text} (hu : ∃ c ∈ u, isBlank c = false ∧ c ≠ '&') (hlast : '&' ∉ u.getLast?)
variable (hv : ∃ c ∈ v, isBlank c = false) (hhead : '&' ∉ v.head?)

namespace Text

include hu hv in
theorem trim_whole :
    trim (u ++ (v ++ ['\n'])) = u.dropWhile isBlank ++ dropEndWhile isBlank (v ++ ['\n']) := by
  apply dropEndsWhile_append
  · exact hu.imp fun c hc ↦ ⟨hc.1, hc.2.1⟩
  · exact hv.imp fun c hc ↦ ⟨by simp [hc.1], hc.2⟩

include hu in
theorem trim_before : trim (u ++ ['&', '\n']) = u.dropWhile isBlank ++ ['&'] := by
  apply dropEndsWhile_append
  · exact hu.imp fun c hc ↦ ⟨hc.1, hc.2.1⟩
  · exact ⟨'&', by simp, rfl⟩

include hv in
theorem trim_behind :
    trim ('&' :: (v ++ ['\n'])) = '&' :: dropEndWhile isBlank (v ++ ['\n']) := by
  apply @dropEndsWhile_append isBlank ['&']
  · exact ⟨'&', by simp, rfl⟩
  · exact hv.imp fun c hc ↦ ⟨by simp [hc.1], hc.2⟩

include hv in
theorem head?_dropEndWhile_blank : (dropEndWhile isBlank (v ++ ['\n'])).head? = v.head? := by
  have hne : v ≠ [] := by
    rintro rfl
    simp at hv
  have hv' : ∃ c ∈ v ++ ['\n'], isBlank c = false := hv.imp fun c hc ↦ ⟨by simp [hc.1], hc.2⟩
  rw [head?_dropEndWhile hv', List.head?_append_of_ne_nil _ hne]

include hv in
theorem dropEndWhile_blank_ne_nil : dropEndWhile isBlank (v ++ ['\n']) ≠ [] := by
  have hb := head?_dropEndWhile_blank hv
  intro hnil
  rw [hnil] at hb
  have hne : v = [] := List.head?_eq_none_iff.mp hb.symm
  simp [hne] at hv

include hu hlast in
theorem core_before : dropEndsWhile (· = '&') (trim (u ++ ['&', '\n'])) =
    (u.dropWhile isBlank).dropWhile (· = '&') := by
  have hu' : ∃ c ∈ u.dropWhile isBlank, decide (c = '&') = false :=
    hu.imp fun c hc ↦ ⟨mem_dropWhile hc.1 hc.2.1, by simpa using hc.2.2⟩
  have hsuffix : (u.dropWhile isBlank).dropWhile (· = '&') <:+ u :=
    (List.dropWhile_suffix _).trans (List.dropWhile_suffix _)
  rw [trim_before hu, dropEndsWhile, dropWhile_append_of_exists hu',
    dropEndWhile_append_singleton, if_pos (by decide)]
  apply dropEndWhile_of_getLast
  intro c hc
  rw [decide_eq_false_iff_not]
  rintro rfl
  exact hlast (getLast?_of_suffix hsuffix hc)

include hv hhead in
theorem core_behind : dropEndsWhile (· = '&') (trim ('&' :: (v ++ ['\n']))) =
    dropEndWhile (· = '&') (dropEndWhile isBlank (v ++ ['\n'])) := by
  have hb := head?_dropEndWhile_blank hv
  rw [trim_behind hv, dropEndsWhile, List.dropWhile_cons_of_pos (by decide)]
  congr 1
  generalize dropEndWhile isBlank (v ++ ['\n']) = b at hb
  cases b with
  | nil => rfl
  | cons d b =>
    rw [List.dropWhile_cons_of_neg]
    rw [← hb] at hhead
    simpa using hhead

include hu hlast hv hhead in
theorem core_whole : dropEndsWhile (· = '&') (trim (u ++ (v ++ ['\n']))) =
    dropEndsWhile (· = '&') (trim (u ++ ['&', '\n'])) ++
      dropEndsWhile (· = '&') (trim ('&' :: (v ++ ['\n']))) := by
  rw [core_before hu hlast, core_behind hv hhead, trim_whole hu hv]
  apply dropEndsWhile_append
  · exact hu.imp fun c hc ↦ ⟨mem_dropWhile hc.1 hc.2.1, by simpa using hc.2.2⟩
  · have hb := head?_dropEndWhile_blank hv
    obtain ⟨d, v', rfl⟩ := List.exists_cons_of_ne_nil (l := v) (by rintro rfl; simp at hv)
    exact ⟨d, List.mem_of_mem_head? hb, by simpa using hhead⟩

end Text

def Segment.ofCode (code : Text) (lineNumber : Nat) : Segment :=
  ⟨⟨code, false, []⟩, none, lineNumber, true⟩

theorem Segment.source_ofCode (code : Text) (n : Nat) : (ofCode code n).source = code := by
  simp [source, ofCode, Sentinel.textOf, Statement.text]

namespace Continuation

theorem isOpen_after_ofCode (c : Continuation) (code : Text) (n : Nat) :
    (c.after (.ofCode code n)).isOpen =
      ((if (trim code).isEmpty then c.statement else endsWith '&' (trim code)) || c.directive) :=
  rfl

include hu in
theorem isOpen_before (c : Continuation) (n : Nat) :
    (c.after (.ofCode (u ++ ['&', '\n']) n)).isOpen := by
  simp [isOpen_after_ofCode, trim_before hu, endsWith]

include hu hv in
theorem isOpen_behind (c c' : Continuation) (h : c.directive = c'.directive) (n n' : Nat) :
    (c.after (.ofCode ('&' :: (v ++ ['\n'])) n)).isOpen =
      (c'.after (.ofCode (u ++ (v ++ ['\n'])) n')).isOpen := by
  have hne := dropEndWhile_blank_ne_nil hv
  rw [isOpen_after_ofCode, isOpen_after_ofCode, trim_whole hu hv, trim_behind hv, h]
  generalize dropEndWhile isBlank (v ++ ['\n']) = b at hne
  obtain ⟨d, b, rfl⟩ := List.exists_cons_of_ne_nil hne
  simp [endsWith, List.getLast?_append, List.getLast?_cons]

end Continuation

namespace LogicalLine

theorem join_nil_ofCode (code : Text) (n : Nat) :
    join [] (.ofCode code n) = dropEndsWhile (· = '&') (trim code) ++ ['\n'] :=
  rfl

include hu hlast hv hhead in
/-- The newline and the marks of the break are not in the joined code. -/
theorem join_break (hnewline : '\n' ∉ u) (n n' : Nat) :
    join (join [] (.ofCode (u ++ ['&', '\n']) n)) (.ofCode ('&' :: (v ++ ['\n'])) (n + 1)) =
      join [] (.ofCode (u ++ (v ++ ['\n'])) n') := by
  have hblank : isBlankText ((u.dropWhile isBlank).dropWhile (· = '&')) = false := by
    obtain ⟨c, hc, hb, hamp⟩ := hu
    rw [isBlankText, List.all_eq_false]
    exact ⟨c, mem_dropWhile (mem_dropWhile hc hb) (by simpa using hamp), by simp [hb]⟩
  have hsuffix : (u.dropWhile isBlank).dropWhile (· = '&') <:+ u :=
    (List.dropWhile_suffix _).trans (List.dropWhile_suffix _)
  have hfirst : '\n' ∉ (u.dropWhile isBlank).dropWhile (· = '&') := fun hmem ↦
    hnewline (hsuffix.subset hmem)
  rw [join_nil_ofCode, join_nil_ofCode, core_whole hu hlast hv hhead, core_before hu hlast,
    join_append hblank hfirst (Or.inr rfl)]
  rfl

end LogicalLine

end

end FreeForm
