import FreeForm.Proofs.Declarations
import FreeForm.Proofs.Regex

namespace FreeForm

namespace Declaration

open Text Regex

inductive Part where
  | typeSpec
  | parameters
  | attributes
  | colons
  | vars
  deriving DecidableEq, Repr

namespace Grammar

def char (c : Char) : Regex Part :=
  .one (· = c)

def blanks : Regex Part :=
  .star (char ' ')

def inParentheses (a : Regex Part) : Regex Part :=
  .seq (char '(') (.seq a (char ')'))

def isNoParenthesis (c : Char) : Bool :=
  c ≠ '(' && c ≠ ')'

/-- What may stand in parentheses, with groups in it that nest at most `depth` deep. -/
def body : (depth : Nat) → Regex Part
  | 0 => .star (.one isNoParenthesis)
  | depth + 1 => .star (.alt (.plus (.one isNoParenthesis)) (inParentheses (body depth)))

def group : Regex Part :=
  inParentheses (body (depthLimit - 1))

def length : Regex Part :=
  .seq blanks (.seq (char '*') (.seq blanks (.plus (.one Char.isDigit))))

def type (keyword : Text × Bool) : Regex Part :=
  .seq (word keyword.1) (if keyword.2 then .opt length else .empty)

def oneAttribute : Regex Part :=
  .seq blanks (.seq (char ',') (.seq blanks (.seq (.plus (.one isNameChar)) (.opt (.seq blanks group)))))

def entities : Regex Part :=
  .seq (.capture .vars (.plus (.one (· ≠ '\n')))) (.opt (char '\n'))

/-- The colons and all that comes behind them, as the next ones are a piece and all that comes behind it. -/
def fromColons : Regex Part :=
  .seq (.opt (.capture .colons (.seq (char ':') (char ':')))) entities

def fromAttributesGap : Regex Part :=
  .seq blanks fromColons

def fromAttributes : Regex Part :=
  .seq (.opt (.capture .attributes (.plus oneAttribute))) fromAttributesGap

def fromParametersGap : Regex Part :=
  .seq blanks fromAttributes

def fromParameters : Regex Part :=
  .seq (.opt (.capture .parameters group)) fromParametersGap

def fromTypeGap : Regex Part :=
  .seq blanks fromParameters

def fromType : Regex Part :=
  .seq (.capture .typeSpec (oneOf (keywords.map type))) fromTypeGap

def declaration : Regex Part :=
  .seq blanks fromType

end Grammar

open Grammar

section

variable {depth : Nat} {t u rest : Text} {m : Match Part} {a : Regex Part}

theorem isNoParenthesis_iff {c : Char} : isNoParenthesis c ↔ c ≠ '(' ∧ c ≠ ')' := by
  simp [isNoParenthesis]

theorem Balanced.append {v : Text} (hu : ∀ c ∈ u, isNoParenthesis c) (hv : Balanced depth v) :
    Balanced depth (u ++ v) := by
  induction u with
  | nil => exact hv
  | cons c u ih =>
    obtain ⟨hc, hu⟩ := List.forall_mem_cons.mp hu
    exact .char (isNoParenthesis_iff.mp hc) (ih hu)

theorem mem_ways_inParentheses : m ∈ (inParentheses a).ways t ↔
    ∃ t' m', t = '(' :: t' ∧ m' ∈ a.ways t' ∧ m'.2 = ')' :: m.2 ∧ m'.1 = m.1 := by
  simp only [inParentheses, mem_ways_seq, char, mem_ways_one]
  constructor
  · rintro ⟨⟨_, t'⟩, ⟨c, hc, rfl, rfl⟩, m', ⟨m₁, hm₁, ⟨_, rest⟩, ⟨d, hd, hrest, rfl⟩, rfl⟩, rfl⟩
    obtain rfl : c = '(' := of_decide_eq_true hc
    obtain rfl : d = ')' := of_decide_eq_true hd
    exact ⟨t', m₁, rfl, hm₁, hrest, by simp [Match.prepend]⟩
  · rintro ⟨t', m', rfl, hm', hrest, hfst⟩
    refine ⟨([], t'), ⟨'(', rfl, rfl, rfl⟩, m, ⟨m', hm', ([], m.2), ⟨')', rfl, hrest, rfl⟩, ?_⟩, rfl⟩
    simp [Match.prepend, hfst]

theorem balanced_of_mem_ways (h : m ∈ (body depth).ways t) :
    m.1 = [] ∧ ∃ u, Balanced depth u ∧ t = u ++ m.2 := by
  induction depth generalizing t m with
  | zero =>
    obtain ⟨hm, u, hu, ht⟩ := exists_of_mem_ways_star_one h
    refine ⟨hm, u, ?_, ht⟩
    simpa using Balanced.append hu (.nil 0)
  | succ depth ih =>
    -- `ih` is for the groups one level down, `ihn` for the repetitions behind the first one.
    induction hlength : t.length using Nat.strongRecOn generalizing t m with
    | _ n ihn =>
      rcases mem_ways_star.mp h with rfl | ⟨m₁, hm₁, hlt, m₂, hm₂, rfl⟩
      · exact ⟨rfl, [], .nil _, rfl⟩
      · obtain ⟨hfst, v, hv, hrest⟩ := ihn _ (hlength ▸ hlt) hm₂ rfl
        rcases mem_ways_alt.mp hm₁ with hm₁ | hm₁
        · obtain ⟨hfst₁, u, hu, rfl⟩ := exists_of_mem_ways_plus_one hm₁
          refine ⟨by simp [Match.prepend, hfst, hfst₁], u ++ v, .append hu hv, ?_⟩
          rw [hrest, List.append_assoc]
          rfl
        · obtain ⟨t', m', rfl, hm', hclose, hfst₁⟩ := mem_ways_inParentheses.mp hm₁
          obtain ⟨hfst', u, hu, rfl⟩ := ih hm'
          refine ⟨by simp [Match.prepend, hfst, ← hfst₁, hfst'], '(' :: (u ++ ')' :: v), .group hu hv, ?_⟩
          rw [hclose, hrest]
          simp [Match.prepend]

theorem Balanced.mem_ways (h : Balanced depth u) (rest : Text) :
    ([], rest) ∈ (body depth).ways (u ++ rest) := by
  -- One repetition more in front of the others.
  have hbehind {a : Regex Part} {u t rest : Text} (hu : ([], t) ∈ a.ways (u ++ t)) (hne : u ≠ [])
      (ht : ([], rest) ∈ (star a).ways t) : ([], rest) ∈ (star a).ways (u ++ t) := by
    have hlt : t.length < (u ++ t).length := by
      have hpos := List.length_pos_of_ne_nil hne
      simp only [List.length_append]
      omega
    exact mem_ways_star.mpr (.inr ⟨_, hu, hlt, _, ht, rfl⟩)
  induction h generalizing rest with
  | nil depth => cases depth <;> exact mem_ways_star.mpr (.inl rfl)
  | @char depth c t hc _ ih =>
    have hone : ([], t ++ rest) ∈ (one isNoParenthesis : Regex Part).ways ([c] ++ (t ++ rest)) :=
      mem_ways_one.mpr ⟨c, isNoParenthesis_iff.mpr hc, rfl, rfl⟩
    cases depth with
    | zero => exact hbehind (u := [c]) hone (List.cons_ne_nil _ _) (ih rest)
    | succ depth =>
      have hplus : ([], t ++ rest) ∈ (plus (one isNoParenthesis) : Regex Part).ways ([c] ++ (t ++ rest)) :=
        mem_ways_seq.mpr ⟨_, hone, ([], t ++ rest), mem_ways_star.mpr (.inl rfl), rfl⟩
      exact hbehind (u := [c]) (mem_ways_alt.mpr (.inl hplus)) (List.cons_ne_nil _ _) (ih rest)
  | @group depth u t _ _ ihu iht =>
    have hgroup : ([], t ++ rest) ∈ (inParentheses (body depth)).ways
        ('(' :: (u ++ [')']) ++ (t ++ rest)) := by
      refine mem_ways_inParentheses.mpr ⟨_, ([], ')' :: (t ++ rest)), rfl, ?_, rfl, rfl⟩
      simpa using ihu (')' :: (t ++ rest))
    have hall := hbehind (mem_ways_alt.mpr (.inr hgroup)) (List.cons_ne_nil _ _) (iht rest)
    rw [List.cons_append, List.append_assoc, List.singleton_append] at hall
    rwa [List.cons_append, List.append_assoc, List.cons_append]

/-- A group is matched in no other way than `cutGroup` cuts it off. -/
theorem first_group (q : Text → Bool) (t : Text) :
    group.first q t = (cutGroup t).bind fun (_, rest) ↦ if q rest then some ([], rest) else none := by
  have hcut : ∀ m ∈ group.ways t, m.1 = [] ∧ ∃ g, cutGroup t = some (g, m.2) := by
    intro m hm
    obtain ⟨t', m', rfl, hm', hclose, hfst⟩ := mem_ways_inParentheses.mp hm
    obtain ⟨hfst', u, hu, rfl⟩ := balanced_of_mem_ways hm'
    have hgroup : IsGroup ('(' :: (u ++ [')'])) := ⟨u, hu, rfl⟩
    refine ⟨hfst ▸ hfst', '(' :: (u ++ [')']), ?_⟩
    rw [hclose, ← hgroup.cutGroup_append m.2]
    simp
  cases ht : cutGroup t with
  | none =>
    refine first_of_ways_eq_nil (List.eq_nil_iff_forall_not_mem.mpr ?_) q
    intro m hm
    obtain ⟨-, g, hg⟩ := hcut m hm
    rw [ht] at hg
    cases hg
  | some parts =>
    obtain ⟨g, rest⟩ := parts
    obtain ⟨u, hu, rfl⟩ := isGroup_of_cutGroup ht
    obtain rfl := append_of_cutGroup ht
    have hmem : ([], rest) ∈ group.ways ('(' :: (u ++ [')']) ++ rest) := by
      refine mem_ways_inParentheses.mpr ⟨_, ([], ')' :: rest), rfl, ?_, rfl, rfl⟩
      simpa using hu.mem_ways (')' :: rest)
    refine first_of_forall_eq hmem ?_ q
    rintro ⟨captured, rest'⟩ hm
    obtain ⟨rfl, g, hg⟩ := hcut _ hm
    rw [ht] at hg
    cases hg
    rfl

end

def hasVars (t : Text) : Bool :=
  !(t.takeWhile (· ≠ '\n')).isEmpty

def StartsOutside (chars t : Text) : Prop :=
  ∀ c ∈ chars, t.head? ≠ some c

section

variable {chars chars' t : Text} {c : Char} {n : Nat} {a : Regex Part}

theorem startsOutside_cons (hc : c ∉ chars) (t : Text) : StartsOutside chars (c :: t) := by
  rintro d hd ⟨⟩
  exact hc hd

theorem StartsOutside.mono (h : StartsOutside chars t) (hsub : ∀ c ∈ chars', c ∈ chars) :
    StartsOutside chars' t :=
  fun c hc ↦ h c (hsub c hc)

theorem StartsIn.startsOutside (h : StartsIn chars t) (hchars : ∀ c ∈ chars', c ∉ chars) :
    StartsOutside chars' t :=
  fun c hc ↦ h.head_ne (hchars c hc)

theorem not_mem_of_class {p : Char → Bool} (chars : Text) (hchars : chars.all fun d ↦ !p d) (hc : p c) :
    c ∉ chars := by
  intro hmem
  simpa [hc] using List.all_eq_true.mp hchars c hmem

theorem hasVars_cons (c : Char) (t : Text) : hasVars (c :: t) = (c ≠ '\n') := by
  rw [hasVars, List.takeWhile_cons]
  by_cases hc : c = '\n' <;> simp [hc]

theorem hasVars_cons_of_ne (hc : c ≠ '\n') (t : Text) : hasVars (c :: t) := by
  rw [hasVars_cons]
  exact hc

theorem hasVars_spaces_append (h : hasVars t) (n : Nat) : hasVars (spaces n ++ t) := by
  cases n with
  | zero => exact h
  | succ n => exact hasVars_cons_of_ne (by decide) _

/-- Only a newline may stand where nothing is left for the entities. -/
theorem startsOutside_of_not_hasVars (h : ¬hasVars t) (chars : Text) (hchars : '\n' ∉ chars) :
    StartsOutside chars t := by
  rcases t with _ | ⟨c, t⟩
  · rintro c - ⟨⟩
  · rw [hasVars_cons, Decidable.not_not] at h
    subst h
    exact startsOutside_cons hchars t

theorem cutAttribute_of_not_hasVars (h : ¬hasVars t) : cutAttribute t = none := by
  have hends := startsOutside_of_not_hasVars h [' ', ','] (by simp)
  exact cutAttribute_of_head_ne (n := 0) (hends ' ' (by simp)) (hends ',' (by simp))

theorem cutLength_of_not_hasVars (h : ¬hasVars t) : cutLength t = none := by
  have hends := startsOutside_of_not_hasVars h [' ', '*'] (by simp)
  exact cutLength_of_head_ne (n := 0) (hends ' ' (by simp)) (hends '*' (by simp))

theorem cutSpaces_snd (t : Text) : (cutSpaces t).2 = t.dropWhile (· = ' ') := by
  fun_induction cutSpaces t with
  | case1 t n rest h ih => simpa [h] using ih
  | case2 t h =>
    rcases t with _ | ⟨c, t⟩
    · rfl
    · have hc : c ≠ ' ' := fun hc ↦ h t (by rw [hc])
      rw [List.dropWhile_cons_of_neg (by simpa using hc)]

theorem spaces_cutSpaces_fst (t : Text) : spaces (cutSpaces t).1 = t.takeWhile (· = ' ') := by
  have h := spaces_cutSpaces_append t
  rw [cutSpaces_snd] at h
  exact List.append_cancel_right (h.trans List.takeWhile_append_dropWhile.symm)

theorem first_blanks (t : Text) : blanks.first hasVars t =
    if hasVars (cutSpaces t).2 then some ([], (cutSpaces t).2)
    else (spaces (cutSpaces t).1).getLast?.map fun c ↦ ([], c :: (cutSpaces t).2) := by
  have hspace : ∀ c t, decide (c = ' ') → hasVars (c :: t) := by
    intro c t hc
    rw [of_decide_eq_true hc]
    exact hasVars_cons_of_ne (by decide) t
  rw [blanks, char, first_star_one hspace, cutSpaces_snd, spaces_cutSpaces_fst]

theorem first_seq_blanks {q : Text → Bool} (h : ∀ t, a.first q (' ' :: t) = none) (t : Text) :
    (seq blanks a).first q t = a.first q (cutSpaces t).2 := by
  rw [cutSpaces_snd, blanks, char, first_seq_star_of_none]
  intro c t hc
  rw [of_decide_eq_true hc, h]

theorem first_seq_char (c : Char) (a : Regex Part) (t : Text) :
    (seq (char c) a).first hasVars t = if t.head? = some c then a.first hasVars t.tail else none := by
  rcases t with _ | ⟨d, t⟩
  · rfl
  · rw [char, first_seq_one]
    simp

end

theorem append_of_cutKeyword {t keyword rest : Text} {hasLength : Bool}
    (h : cutKeyword t = some (keyword, hasLength, rest)) : keyword ++ rest = t := by
  rw [cutKeyword] at h
  obtain ⟨k, -, hk⟩ := List.exists_of_findSome?_eq_some h
  obtain ⟨⟨u, v⟩, hcut, heq⟩ := Option.map_eq_some_iff.mp hk
  cases heq
  exact (cutWord_eq_some_iff.mp hcut).1.symm

theorem findSome?_bind_of_pairwise {α β γ : Type} {f : α → Option β} {l : List α}
    (h : l.Pairwise fun a b ↦ (f a).isSome → f b = none) (g : β → Option γ) :
    l.findSome? (fun a ↦ (f a).bind g) = (l.findSome? f).bind g := by
  induction l with
  | nil => rfl
  | cons a l ih =>
    obtain ⟨ha, hl⟩ := List.pairwise_cons.mp h
    rw [List.findSome?_cons, List.findSome?_cons]
    cases hfa : f a with
    | none => exact ih hl
    | some b =>
      rw [Option.bind_some]
      cases hg : g b with
      | some c => rfl
      | none =>
        have hnone : l.findSome? (fun a ↦ (f a).bind g) = none := by
          rw [List.findSome?_eq_none_iff]
          intro b hb
          rw [ha b hb (by rw [hfa]; rfl), Option.bind_none]
        exact hnone

/-- A keyword that matches is the only one. -/
theorem first_types (q : Text → Bool) (t : Text) : (oneOf (keywords.map type)).first q t =
    (cutKeyword t).bind fun (_, hasLength, rest) ↦
      (if hasLength then opt length else empty).first q rest := by
  have honly : keywords.Pairwise fun a b ↦
      ((cutWord a.1 t).map fun (u, rest) ↦ (u, a.2, rest)).isSome →
        ((cutWord b.1 t).map fun (u, rest) ↦ (u, b.2, rest)) = none := by
    refine keywords_pairwise.imp ?_
    intro a b hab ha
    rw [Option.isSome_map] at ha
    obtain ⟨⟨u, rest⟩, hcut⟩ := Option.isSome_iff_exists.mp ha
    rw [cutWord_eq_none hcut hab, Option.map_none]
  rw [first_oneOf, List.findSome?_map, cutKeyword, ← findSome?_bind_of_pairwise honly]
  congr 1
  funext k
  rw [Option.bind_map]
  exact first_seq_word k.1 _ q t

end Declaration

end FreeForm
