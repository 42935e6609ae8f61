import FreeForm.Proofs.Pieces
import FreeForm.Proofs.Searching

namespace FreeForm

open Text

namespace Marker

open Regex

namespace Form

def directives : List Text :=
  [['#', '!'], ['#', ':'], ['$', ':'], ['@', ':']]

def openers : List Text :=
  [['#', '{'], ['$', '{'], ['@', '{']]

def closers : List Text :=
  [['}', '#'], ['}', '$'], ['}', '@']]

/-- The characters that make something else of a `#` than the mark of a preprocessor line. -/
def claimed : List Char :=
  ['!', ':', '{', '}']

/-- To be matched at the start, as the next three. -/
def directive : Regex Unit :=
  oneOf (directives.map word)

def preprocessor : Regex Unit :=
  .seq (word ['#']) (.one (· ∉ claimed))

def comment : Regex Unit :=
  word ['!']

def codeEnd : Regex Unit :=
  oneOf [directive, preprocessor, comment]

/-- To be searched for, as the next one. -/
def opener : Regex Unit :=
  .capture () (oneOf (openers.map word))

def closer : Regex Unit :=
  oneOf (closers.map word)

/-- The first character of an opener, if a search finds one at the start. -/
def sigil? (t : Text) : Option Char :=
  ((opener.search? t).filter fun p ↦ p.1.isEmpty).bind fun p ↦ p.2.1.head?.bind fun u ↦ u.2.head?

def closes (sigil : Char) (t : Text) : Bool :=
  (closer.search? t).isSome && (t.head? == some '}' && t.tail.head? == some sigil)

end Form

variable {t : Text} {c sigil : Char}

theorem isSigil_iff : isSigil c ↔ c = '#' ∨ c = '$' ∨ c = '@' := by
  simp [isSigil, or_assoc]

theorem pair_prefix_iff {a b d : Char} : [a, b] <+: c :: d :: t ↔ c = a ∧ d = b := by
  rw [List.cons_prefix_cons, List.cons_prefix_cons, eq_comm (a := a), eq_comm (a := b)]
  simp

theorem startsDirective_iff : startsDirective t ↔ ∃ w ∈ Form.directives, w <+: t := by
  rcases t with _ | ⟨c, _ | ⟨d, t⟩⟩
  · simp [startsDirective, Form.directives]
  · simp [startsDirective, Form.directives]
  · simp only [Form.directives, List.exists_mem_cons_iff, pair_prefix_iff]
    by_cases hd : d = '!'
    · by_cases hc : c = '#' <;> simp [startsDirective, hc, hd]
    · by_cases hd' : d = ':' <;> simp [startsDirective, hd, hd', isSigil, or_assoc]

theorem startsPreprocessor_iff : startsPreprocessor t ↔ ∃ c, c ∉ Form.claimed ∧ ['#', c] <+: t := by
  rcases t with _ | ⟨c, _ | ⟨d, t⟩⟩
  · simp [startsPreprocessor]
  · simp [startsPreprocessor]
  · simp only [pair_prefix_iff]
    by_cases hc : c = '#' <;> simp [startsPreprocessor, Form.claimed, hc, and_assoc]

theorem startsComment_iff : startsComment t ↔ ['!'] <+: t := by
  cases t with
  | nil => simp [startsComment]
  | cons c t =>
    rw [List.cons_prefix_cons, eq_comm (a := '!')]
    by_cases hc : c = '!' <;> simp [startsComment, hc]

theorem opener?_eq_some_iff : opener? t = some c ↔ isSigil c ∧ [c, '{'] <+: t := by
  rcases t with _ | ⟨d, _ | ⟨e, t⟩⟩
  · simp [opener?]
  · simp [opener?]
  · rw [pair_prefix_iff]
    by_cases he : e = '{'
    · subst he
      rw [opener?, Option.ite_none_right_eq_some, Option.some.injEq]
      constructor
      · rintro ⟨hd, rfl⟩
        exact ⟨hd, rfl, rfl⟩
      · rintro ⟨hc, rfl, -⟩
        exact ⟨hc, rfl⟩
    · simp [opener?, he]

theorem exists_closer_iff : (∃ w ∈ Form.closers, w <+: t) ↔ ∃ c, isSigil c ∧ ['}', c] <+: t := by
  simp [Form.closers, isSigil_iff, or_and_right, exists_or]

theorem hasCloser_cons : hasCloser (c :: t) ↔ (∃ w ∈ Form.closers, w <+: c :: t) ∨ hasCloser t := by
  rw [exists_closer_iff]
  by_cases hc : c = '}'
  · subst hc
    cases t <;> simp [hasCloser]
  · cases t <;> simp [hasCloser, hc, Ne.symm hc]

theorem hasCloser_iff : hasCloser t ↔ ∃ u, u <:+ t ∧ ∃ w ∈ Form.closers, w <+: u := by
  induction t with
  | nil => simp [hasCloser, Form.closers]
  | cons c t ih =>
    rw [hasCloser_cons, ih]
    simp only [List.suffix_cons_iff, or_and_right, exists_or, exists_eq_left]

theorem startsDirective_eq (t : Text) : startsDirective t = (Form.directive.match? t).isSome := by
  rw [Bool.eq_iff_iff, startsDirective_iff, Form.directive, isSome_match?_words (by decide)]

theorem startsComment_eq (t : Text) : startsComment t = (Form.comment.match? t).isSome := by
  rw [Bool.eq_iff_iff, startsComment_iff, Form.comment, isSome_match?_word (by decide)]

theorem startsPreprocessor_eq (t : Text) : startsPreprocessor t = (Form.preprocessor.match? t).isSome := by
  rw [Bool.eq_iff_iff, startsPreprocessor_iff, isSome_match?_iff, Form.preprocessor]
  simp only [mem_ways_seq, mem_ways_word_of_not_isAlpha (w := ['#']) (by decide), mem_ways_one]
  constructor
  · rintro ⟨c, hc, rest, rfl⟩
    exact ⟨_, ([], c :: rest), ⟨rfl, rfl⟩, ([], rest), ⟨c, decide_eq_true hc, rfl, rfl⟩, rfl⟩
  · rintro ⟨_, ⟨_, u⟩, ⟨-, rfl⟩, m, ⟨c, hc, rfl, -⟩, -⟩
    exact ⟨c, of_decide_eq_true hc, List.prefix_append ['#', c] m.2⟩

theorem endsCode_eq (t : Text) : endsCode t = (Form.codeEnd.match? t).isSome := by
  rw [Bool.eq_iff_iff, Form.codeEnd, isSome_match?_oneOf, endsCode, startsDirective_eq, startsPreprocessor_eq,
    startsComment_eq]
  simp [or_assoc]

theorem exists_opener_iff : (∃ w ∈ Form.openers, w <+: t) ↔ ∃ c, opener? t = some c := by
  simp [Form.openers, opener?_eq_some_iff, isSigil_iff, or_and_right, exists_or]

theorem opener?_eq (t : Text) : opener? t = Form.sigil? t := by
  have hsigil : Form.sigil? t = ((oneOf (Form.openers.map word)).match? t : Option (Match Unit)).bind fun m ↦
      (t.take (t.length - m.2.length)).head? := by
    rw [Form.sigil?, filter_search?, Form.opener, match?, ways, List.head?_map, match?]
    cases ((oneOf (Form.openers.map word)).ways t : List (Match Unit)).head? <;> rfl
  rw [hsigil]
  cases hmatch : ((oneOf (Form.openers.map word)).match? t : Option (Match Unit)) with
  | none =>
    have hnone : ¬∃ c, opener? t = some c := by
      rw [← exists_opener_iff, ← isSome_match?_words (ν := Unit) (by decide), hmatch]
      exact Bool.false_ne_true
    rw [Option.bind_none, Option.eq_none_iff_forall_ne_some]
    exact not_exists.mp hnone
  | some m =>
    obtain ⟨a, ha, hm⟩ := mem_ways_oneOf.mp (List.mem_of_mem_head? hmatch)
    obtain ⟨w, hw, rfl⟩ := List.mem_map.mp ha
    have hopeners : ∀ w ∈ Form.openers, w.any Char.isAlpha = false ∧ ∃ c, isSigil c ∧ w = [c, '{'] := by
      simp [Form.openers, isSigil_iff]
    obtain ⟨hword, c, hc, rfl⟩ := hopeners w hw
    obtain ⟨-, ht⟩ := (mem_ways_word_of_not_isAlpha hword).mp hm
    rw [opener?_eq_some_iff.mpr ⟨hc, m.2, ht.symm⟩, Option.bind_some, ht, List.length_append,
      Nat.add_sub_cancel, List.take_left]
    rfl

theorem hasCloser_eq (t : Text) : hasCloser t = (Form.closer.search? t).isSome := by
  have hword : ∀ w ∈ Form.closers, w.any Char.isAlpha = false := by decide
  rw [Bool.eq_iff_iff, hasCloser_iff, isSome_search?_iff, Form.closer]
  simp only [isSome_match?_words hword]

theorem closes_eq (sigil : Char) (t : Text) : closes sigil t = Form.closes sigil t := by
  rw [Form.closes, ← hasCloser_eq]
  rcases t with _ | ⟨c, _ | ⟨d, t⟩⟩
  · rfl
  · simp [closes]
  · by_cases hc : c = '}' <;> simp [closes, hc, Bool.and_comm]

theorem prefix_window_iff {w : Text} (hw : w.length ≤ 2) : w <+: window t ↔ w <+: t := by
  rw [window, List.prefix_take_iff]
  exact and_iff_left hw

theorem startsDirective_window (t : Text) : startsDirective (window t) = startsDirective t := by
  have hlength : ∀ w ∈ Form.directives, w.length ≤ 2 := by decide
  rw [Bool.eq_iff_iff, startsDirective_iff, startsDirective_iff]
  exact exists_congr fun w ↦ and_congr_right fun hw ↦ prefix_window_iff (hlength w hw)

theorem endsCode_window (t : Text) : endsCode (window t) = endsCode t := by
  have hpreprocessor : startsPreprocessor (window t) = startsPreprocessor t := by
    rw [Bool.eq_iff_iff, startsPreprocessor_iff, startsPreprocessor_iff]
    exact exists_congr fun c ↦ and_congr_right fun _ ↦ prefix_window_iff (Nat.le_refl 2)
  have hcomment : startsComment (window t) = startsComment t := by
    rw [Bool.eq_iff_iff, startsComment_iff, startsComment_iff]
    exact prefix_window_iff (Nat.le_succ 1)
  rw [endsCode, startsDirective_window, hpreprocessor, hcomment, endsCode]

theorem opener?_window (t : Text) : opener? (window t) = opener? t := by
  ext c
  rw [opener?_eq_some_iff, opener?_eq_some_iff]
  exact and_congr_right fun _ ↦ prefix_window_iff (Nat.le_refl 2)

theorem closes_window_iff_prefix : closes sigil (window t) ↔ isSigil sigil ∧ ['}', sigil] <+: t := by
  rcases t with _ | ⟨c, _ | ⟨d, t⟩⟩
  · simp [window, closes]
  · simp [window, closes]
  · rw [pair_prefix_iff]
    by_cases hd : d = sigil
    · by_cases hc : c = '}' <;> simp [window, closes, hasCloser, hc, hd]
    · by_cases hc : c = '}' <;> simp [window, closes, hc, hd]

/-- The marks are recognised as their expressions match. Wherever a text is cut, the window there holds two
characters, or what is left if that is less, and in it the same marks are recognised as in all that is left. -/
theorem window_decides :
    (∀ t, endsCode t = (Form.codeEnd.match? t).isSome ∧
      startsDirective t = (Form.directive.match? t).isSome ∧ opener? t = Form.sigil? t ∧
      ∀ sigil, closes sigil t = Form.closes sigil t) ∧
    ∀ front rest, ∃ ahead back, windowAt? (front ++ rest) (byteLength front) = some ahead ∧
      rest = ahead ++ back ∧ ahead.length = min 2 rest.length ∧ endsCode ahead = endsCode rest ∧
      startsDirective ahead = startsDirective rest ∧ opener? ahead = opener? rest ∧
      (∀ sigil, closes sigil ahead ↔ isSigil sigil ∧ ['}', sigil] <+: rest) ∧
      ((opener? ahead).isSome → endsCode ahead = false) := by
  refine ⟨fun t ↦ ⟨endsCode_eq t, startsDirective_eq t, opener?_eq t, fun sigil ↦ closes_eq sigil t⟩,
    fun front rest ↦ ?_⟩
  have hwindow : windowAt? (front ++ rest) (byteLength front) = some (window rest) := by
    rw [windowAt?, fromByte?_append, Option.map_some]
  have hexclusive : (opener? (window rest)).isSome → endsCode (window rest) = false := by
    intro hopener
    by_contra hends
    rw [opener?_of_endsCode (by simpa using hends)] at hopener
    cases hopener
  exact ⟨window rest, rest.drop 2, hwindow, (List.take_append_drop 2 rest).symm, List.length_take,
    endsCode_window rest, startsDirective_window rest, opener?_window rest,
    fun sigil ↦ closes_window_iff_prefix, hexclusive⟩

end Marker

end FreeForm
