import FreeForm.Proofs.Regex

namespace FreeForm

namespace Regex

variable {ν : Type}

/-- The leftmost place at which there is a match: what stands before it, and the match. -/
def search? (a : Regex ν) : Text → Option (Text × Match ν)
  | [] => (a.match? []).map fun m ↦ ([], m)
  | c :: t =>
    match a.match? (c :: t) with
    | some m => some ([], m)
    | none => (a.search? t).map fun (before, m) ↦ (c :: before, m)

variable {a : Regex ν} {l : List (Regex ν)} {m : Match ν} {t u w : Text}

theorem isSome_match?_iff : (a.match? t).isSome ↔ ∃ m, m ∈ a.ways t := by
  rw [match?, List.isSome_head?]
  refine ⟨List.exists_mem_of_ne_nil _, ?_⟩
  rintro ⟨m, hm⟩
  exact List.ne_nil_of_mem hm

theorem mem_ways_oneOf : m ∈ (oneOf l).ways t ↔ ∃ a ∈ l, m ∈ a.ways t := by
  induction l with
  | nil =>
    rw [oneOf, mem_ways_one]
    simp
  | cons a l ih => rw [oneOf, mem_ways_alt, ih, List.exists_mem_cons_iff]

theorem toLower_eq_iff {c d : Char} (hc : c.isAlpha = false) : d.toLower = c ↔ d = c := by
  obtain ⟨hupper, hlower⟩ := Bool.or_eq_false_iff.mp hc
  by_cases hd : d.isUpper
  · have hle : 'A'.val ≤ d.val ∧ d.val ≤ 'Z'.val := of_decide_eq_true hd
    constructor
    · rintro rfl
      have hval : d.toLower.val = d.val + ('a'.val - 'A'.val) := congrArg Char.val (dif_pos hle)
      have hbounds : 'a'.val ≤ d.toLower.val ∧ d.toLower.val ≤ 'z'.val := by
        rw [hval]
        simp only [UInt32.le_iff_toNat_le, UInt32.toNat_add] at hle ⊢
        simp at hle ⊢
        omega
      cases hlower.symm.trans (Bool.and_eq_true_iff.mpr ⟨decide_eq_true hbounds.1, decide_eq_true hbounds.2⟩)
    · rintro rfl
      rw [hd] at hupper
      cases hupper
  · have hnot : ¬('A'.val ≤ d.val ∧ d.val ≤ 'Z'.val) := fun hle ↦ hd (decide_eq_true hle)
    exact iff_of_eq (congrArg (· = c) (dif_neg hnot))

theorem map_toLower_eq_iff (hw : w.any Char.isAlpha = false) : u.map Char.toLower = w ↔ u = w := by
  induction w generalizing u with
  | nil => exact List.map_eq_nil_iff
  | cons c w ih =>
    rw [List.any_cons, Bool.or_eq_false_iff] at hw
    obtain ⟨hc, hw⟩ := hw
    cases u with
    | nil => simp
    | cons d u => rw [List.map_cons, List.cons.injEq, List.cons.injEq, toLower_eq_iff hc, ih hw]

theorem mem_ways_word_of_not_isAlpha (hw : w.any Char.isAlpha = false) :
    m ∈ (word w).ways t ↔ m.1 = [] ∧ t = w ++ m.2 := by
  rw [mem_ways_word]
  simp only [map_toLower_eq_iff hw, exists_eq_right]

theorem isSome_match?_oneOf : ((oneOf l).match? t).isSome ↔ ∃ a ∈ l, (a.match? t).isSome := by
  simp only [isSome_match?_iff, mem_ways_oneOf]
  exact ⟨fun ⟨m, a, ha, hm⟩ ↦ ⟨a, ha, m, hm⟩, fun ⟨a, ha, m, hm⟩ ↦ ⟨m, a, ha, hm⟩⟩

theorem isSome_match?_word (hw : w.any Char.isAlpha = false) :
    ((word w : Regex ν).match? t).isSome ↔ w <+: t := by
  simp only [isSome_match?_iff, mem_ways_word_of_not_isAlpha hw]
  constructor
  · rintro ⟨m, -, rfl⟩
    exact List.prefix_append w m.2
  · rintro ⟨rest, rfl⟩
    exact ⟨([], rest), rfl, rfl⟩

theorem isSome_match?_words {words : List Text} (h : ∀ w ∈ words, w.any Char.isAlpha = false) :
    ((oneOf (words.map word) : Regex ν).match? t).isSome ↔ ∃ w ∈ words, w <+: t := by
  simp only [isSome_match?_oneOf, List.mem_map, exists_exists_and_eq_and]
  exact exists_congr fun w ↦ and_congr_right fun hw ↦ isSome_match?_word (h w hw)

theorem isSome_search?_iff : (a.search? t).isSome ↔ ∃ u, u <:+ t ∧ (a.match? u).isSome := by
  induction t with
  | nil => simp [search?]
  | cons c t ih =>
    have hsplit : (∃ u, u <:+ c :: t ∧ (a.match? u).isSome) ↔
        (a.match? (c :: t)).isSome ∨ ∃ u, u <:+ t ∧ (a.match? u).isSome := by
      simp only [List.suffix_cons_iff, or_and_right, exists_or, exists_eq_left]
    rw [search?, hsplit, ← ih]
    cases a.match? (c :: t) <;> simp

/-- A search that finds something at the start has found the match there. -/
theorem filter_search? (a : Regex ν) (t : Text) :
    (a.search? t).filter (fun p ↦ p.1.isEmpty) = (a.match? t).map fun m ↦ ([], m) := by
  cases t with
  | nil =>
    rw [search?]
    cases a.match? [] <;> rfl
  | cons c t =>
    rw [search?]
    cases a.match? (c :: t) with
    | some m => rfl
    | none => cases a.search? t <;> rfl

end Regex

end FreeForm
