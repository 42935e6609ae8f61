import FreeForm.Proofs.Groups

namespace FreeForm

open Text

namespace Declaration

def StartsIn (chars t : Text) : Prop :=
  ∃ c ∈ chars, t.head? = some c

section

variable {chars t : Text} {c : Char}

theorem startsIn_cons (hc : c ∈ chars) (t : Text) : StartsIn chars (c :: t) :=
  ⟨c, hc, rfl⟩

theorem StartsIn.mono {chars' : Text} (h : StartsIn chars t) (hsub : ∀ c ∈ chars, c ∈ chars') :
    StartsIn chars' t := by
  obtain ⟨c, hc, ht⟩ := h
  exact ⟨c, hsub c hc, ht⟩

theorem StartsIn.head_ne (h : StartsIn chars t) (hc : c ∉ chars) : t.head? ≠ some c := by
  obtain ⟨d, hd, ht⟩ := h
  rw [ht]
  rintro ⟨⟩
  exact hc hd

theorem StartsIn.takeWhile {p : Char → Bool} {word : Text} (h : StartsIn chars t)
    (hchars : chars.all fun c ↦ !p c) (hword : ∀ c ∈ word, p c) :
    (word ++ t).takeWhile p = word ∧ (word ++ t).dropWhile p = t := by
  obtain ⟨c, hc, ht⟩ := h
  obtain ⟨t, rfl⟩ := List.head?_eq_some_iff.mp ht
  have hstop : ¬p c := by simpa using List.all_eq_true.mp hchars c hc
  rw [List.takeWhile_append_of_pos hword, List.dropWhile_append_of_pos hword,
    List.takeWhile_cons_of_neg hstop, List.dropWhile_cons_of_neg hstop, List.append_nil]
  exact ⟨rfl, rfl⟩

theorem cutSpaces_append (n : Nat) (h : t.head? ≠ some ' ') : cutSpaces (spaces n ++ t) = (n, t) := by
  induction n with
  | zero =>
    rw [spaces, List.replicate_zero, List.nil_append]
    rcases t with _ | ⟨c, t⟩
    · rfl
    · have hc : c ≠ ' ' := fun hc ↦ h (by rw [hc]; rfl)
      simp [cutSpaces, hc]
  | succ n ih =>
    have hspaces : spaces (n + 1) = ' ' :: spaces n := List.replicate_succ
    rw [hspaces, List.cons_append, cutSpaces, ih]

theorem startsIn_spaces_append (n : Nat) (h : StartsIn chars t) :
    StartsIn (' ' :: chars) (spaces n ++ t) := by
  cases n with
  | zero => exact h.mono fun c hc ↦ List.mem_cons_of_mem ' ' hc
  | succ n => exact startsIn_cons List.mem_cons_self _

theorem cutGroup_of_head_ne (h : t.head? ≠ some '(') : cutGroup t = none := by
  rcases t with _ | ⟨c, t⟩
  · rfl
  · have hc : c ≠ '(' := fun hc ↦ h (by rw [hc]; rfl)
    simp [cutGroup, hc]

end

section

variable {word t u rest : Text}

theorem cutWord_eq_none {word' : Text} (h : cutWord word t = some (u, rest))
    (hword : ¬word <+: word' ∧ ¬word' <+: word) : cutWord word' t = none := by
  cases h' : cutWord word' t with
  | none => rfl
  | some parts =>
    exfalso
    -- Of two texts that start a third one, one starts the other.
    obtain ⟨rfl, rfl⟩ := cutWord_eq_some_iff.mp h
    obtain ⟨happend, rfl⟩ := cutWord_eq_some_iff.mp h'
    have hstart := List.prefix_or_prefix_of_prefix (List.prefix_append u rest)
      (happend ▸ List.prefix_append parts.1 parts.2)
    rcases hstart with hstart | hstart
    · exact hword.1 (hstart.map Char.toLower)
    · exact hword.2 (hstart.map Char.toLower)

theorem keywords_pairwise :
    keywords.Pairwise fun a b ↦ ¬a.1 <+: b.1 ∧ ¬b.1 <+: a.1 := by
  decide

theorem cutKeyword_append {hasLength : Bool} (h : (u.map Char.toLower, hasLength) ∈ keywords)
    (rest : Text) : cutKeyword (u ++ rest) = some (u, hasLength, rest) := by
  obtain ⟨front, back, hkeywords⟩ := List.mem_iff_append.mp h
  have hpairwise := keywords_pairwise
  rw [hkeywords, List.pairwise_append] at hpairwise
  rw [cutKeyword, List.findSome?_eq_some_iff]
  refine ⟨front, _, back, hkeywords, ?_, ?_⟩
  · simp only [cutWord_eq_some_iff.mpr ⟨rfl, rfl⟩, Option.map_some]
  · intro other hother
    have hother := hpairwise.2.2 other hother _ List.mem_cons_self
    simp only [cutWord_eq_none (cutWord_eq_some_iff.mpr ⟨rfl, rfl⟩) hother.symm, Option.map_none]

end

structure Length.IsWritten (l : Length) : Prop where
  digits_ne_nil : l.digits ≠ []
  digits : ∀ c ∈ l.digits, c.isDigit

theorem cutLength_append {l : Length} (h : l.IsWritten) {t : Text} (ht : StartsIn [' ', '(', ',', ':'] t) :
    cutLength (l.text ++ t) = some (l, t) := by
  obtain ⟨c, digits, hdigits⟩ := List.exists_cons_of_ne_nil h.digits_ne_nil
  have hc : c ≠ ' ' := by
    rintro rfl
    exact absurd (h.digits ' ' (by simp [hdigits])) (by decide)
  have hafter : cutSpaces (spaces l.after ++ (l.digits ++ t)) = (l.after, l.digits ++ t) :=
    cutSpaces_append _ (by simpa [hdigits] using hc)
  obtain ⟨htake, hdrop⟩ := ht.takeWhile (by decide) h.digits
  have htext : l.text ++ t = spaces l.before ++ '*' :: (spaces l.after ++ (l.digits ++ t)) := by
    simp [Length.text]
  rw [htext, cutLength, cutSpaces_append _ (by simp)]
  simp only [hafter, htake, hdrop]
  rw [hdigits]
  simp only [← hdigits]

theorem cutLength_of_head_ne {n : Nat} {t : Text} (hspace : t.head? ≠ some ' ')
    (hstar : t.head? ≠ some '*') : cutLength (spaces n ++ t) = none := by
  rw [cutLength, cutSpaces_append n hspace]
  rcases t with _ | ⟨c, t⟩
  · rfl
  · have hc : c ≠ '*' := fun hc ↦ hstar (by rw [hc]; rfl)
    simp [hc]

structure Attribute.IsWritten (a : Attribute) : Prop where
  name_ne_nil : a.name ≠ []
  name : ∀ c ∈ a.name, isNameChar c
  group : ∀ g ∈ a.group, IsGroup g.2

theorem IsGroup.startsIn {g : Text} (h : IsGroup g) (t : Text) : StartsIn ['('] (g ++ t) := by
  obtain ⟨u, -, rfl⟩ := h
  exact startsIn_cons List.mem_cons_self _

theorem cutAttribute_append {a : Attribute} (h : a.IsWritten) {n : Nat} {t : Text}
    (ht : StartsIn [',', ':'] t) :
    cutAttribute (a.text ++ (spaces n ++ t)) = some (a, spaces n ++ t) := by
  obtain ⟨before, after, name, group⟩ := a
  obtain ⟨hne, hname, hgroup⟩ := h
  dsimp only at hne hname hgroup
  have hcomma (u : Text) : (',' :: u).head? ≠ some ' ' := by simp
  have hspace (u : Text) : (name ++ u).head? ≠ some ' ' := by
    obtain ⟨c, name, rfl⟩ := List.exists_cons_of_ne_nil hne
    rintro ⟨⟩
    exact absurd (hname ' ' List.mem_cons_self) (by decide)
  cases group with
  | none =>
    obtain ⟨htake, hdrop⟩ := (startsIn_spaces_append n ht).takeWhile (by decide) hname
    have htext : Attribute.text ⟨before, after, name, none⟩ ++ (spaces n ++ t) =
        spaces before ++ ',' :: (spaces after ++ (name ++ (spaces n ++ t))) := by
      simp [Attribute.text, Attribute.groupText]
    rw [htext, cutAttribute]
    simp only [cutSpaces_append _ (hcomma _), cutSpaces_append _ (hspace _), htake, hdrop,
      cutSpaces_append n (ht.head_ne (by decide)), cutGroup_of_head_ne (ht.head_ne (by decide))]
  | some group =>
    obtain ⟨gap, group⟩ := group
    have hgroup : IsGroup group := hgroup _ rfl
    have hopen := hgroup.startsIn (spaces n ++ t)
    obtain ⟨htake, hdrop⟩ := (startsIn_spaces_append gap hopen).takeWhile (by decide) hname
    have htext : Attribute.text ⟨before, after, name, some (gap, group)⟩ ++ (spaces n ++ t) =
        spaces before ++ ',' :: (spaces after ++ (name ++ (spaces gap ++ (group ++ (spaces n ++ t))))) := by
      simp [Attribute.text, Attribute.groupText]
    rw [htext, cutAttribute]
    simp only [cutSpaces_append _ (hcomma _), cutSpaces_append _ (hspace _), htake, hdrop,
      cutSpaces_append gap (hopen.head_ne (by decide)), hgroup.cutGroup_append]

theorem cutAttribute_of_head_ne {n : Nat} {t : Text} (hspace : t.head? ≠ some ' ')
    (hcomma : t.head? ≠ some ',') : cutAttribute (spaces n ++ t) = none := by
  rw [cutAttribute, cutSpaces_append n hspace]
  rcases t with _ | ⟨c, t⟩
  · rfl
  · have hc : c ≠ ',' := fun hc ↦ hcomma (by rw [hc]; rfl)
    simp [hc]

theorem cutAttributes_of_some {a : Attribute} {t rest : Text} (h : cutAttribute t = some (a, rest)) :
    cutAttributes t = (a :: (cutAttributes rest).1, (cutAttributes rest).2) := by
  rw [cutAttributes]
  split
  · next h' =>
    rw [h] at h'
    obtain ⟨rfl, rfl⟩ := Prod.mk.inj (Option.some.inj h')
    rfl
  · next h' =>
    rw [h] at h'
    cases h'

theorem cutAttributes_of_none {t : Text} (h : cutAttribute t = none) : cutAttributes t = ([], t) := by
  rw [cutAttributes]
  split
  · next h' =>
    rw [h] at h'
    cases h'
  · rfl

theorem startsIn_attribute (a : Attribute) (t : Text) :
    ∃ u, a.text ++ t = spaces a.before ++ u ∧ StartsIn [','] u := by
  refine ⟨_, ?_, startsIn_cons List.mem_cons_self (spaces a.after ++ (a.name ++ (a.groupText ++ t)))⟩
  simp [Attribute.text]

theorem cutAttributes_append {attributes : List Attribute} (h : ∀ a ∈ attributes, a.IsWritten)
    (n : Nat) {t : Text} (ht : StartsIn [':'] t) :
    cutAttributes (attributes.flatMap Attribute.text ++ (spaces n ++ t)) =
      (attributes, spaces n ++ t) := by
  induction attributes with
  | nil =>
    exact cutAttributes_of_none
      (cutAttribute_of_head_ne (ht.head_ne (by decide)) (ht.head_ne (by decide)))
  | cons a attributes ih =>
    obtain ⟨ha, hattributes⟩ := List.forall_mem_cons.mp h
    have hnext : ∃ k u, attributes.flatMap Attribute.text ++ (spaces n ++ t) = spaces k ++ u ∧
        StartsIn [',', ':'] u := by
      cases attributes with
      | nil => exact ⟨n, t, rfl, ht.mono (by simp)⟩
      | cons b attributes =>
        obtain ⟨u, hu, hcomma⟩ :=
          startsIn_attribute b (attributes.flatMap Attribute.text ++ (spaces n ++ t))
        rw [List.flatMap_cons, List.append_assoc]
        exact ⟨b.before, u, hu, hcomma.mono (by simp)⟩
    obtain ⟨k, u, hu, hstart⟩ := hnext
    have hcut := cutAttribute_append ha hstart (n := k)
    rw [← hu] at hcut
    rw [List.flatMap_cons, List.append_assoc, cutAttributes_of_some hcut, ih hattributes]

namespace Head

def text (h : Head) : Text :=
  spaces h.indent ++ h.typeSpec ++ spaces h.typeGap ++ h.parameters.getD [] ++
    spaces h.parametersGap ++ h.attributesText ++ spaces h.attributesGap ++ h.colons

/-- The parts are what the grammar allows. -/
structure IsWritten (h : Head) : Prop where
  keyword : ∃ hasLength, (h.keyword.map Char.toLower, hasLength) ∈ keywords ∧
    (h.length.isSome → hasLength)
  length : ∀ l ∈ h.length, l.IsWritten
  parameters : ∀ g ∈ h.parameters, IsGroup g
  attributes : ∀ a ∈ h.attributes, a.IsWritten
  before : ∀ a ∈ h.attributes.head?, a.before = 0

/-- No spaces belong to a part that is missing. -/
structure IsSettled (h : Head) : Prop where
  parameters : h.parameters = none → h.parametersGap = 0
  attributes : h.attributes = [] → h.attributesGap = 0

/-- The same text, with the spaces given to the part in front of them. -/
def settle (h : Head) : Head :=
  let trailing := if h.attributes.isEmpty then h.attributesGap else 0
  { h with
    typeGap := h.typeGap + if h.parameters.isNone then h.parametersGap + trailing else 0
    parametersGap := if h.parameters.isNone then 0 else h.parametersGap + trailing
    attributesGap := h.attributesGap - trailing }

theorem isSettled_settle (h : Head) : h.settle.IsSettled := by
  constructor
  · intro hparameters
    have hnone : h.parameters = none := hparameters
    simp [settle, hnone]
  · intro hattributes
    have hnil : h.attributes = [] := hattributes
    simp [settle, hnil]

theorem text_settle (h : Head) : h.settle.text = h.text := by
  obtain ⟨indent, keyword, length, typeGap, parameters, parametersGap, attributes, attributesGap,
    doubleColon⟩ := h
  cases parameters <;> cases attributes <;>
    simp [settle, text, typeSpec, attributesText, colons, spaces, Nat.add_assoc]

theorem IsWritten.settle {h : Head} (hw : h.IsWritten) : h.settle.IsWritten :=
  ⟨hw.keyword, hw.length, hw.parameters, hw.attributes, hw.before⟩

end Head

theorem head_ne_of_mem_keywords {keyword : Text} {hasLength : Bool}
    (h : (keyword.map Char.toLower, hasLength) ∈ keywords) (t : Text) :
    (keyword ++ t).head? ≠ some ' ' := by
  have hkeywords : ∀ k ∈ keywords, k.1 ≠ [] ∧ k.1.head? ≠ some ' ' := by decide
  obtain ⟨hne, hhead⟩ := hkeywords _ h
  rcases keyword with _ | ⟨c, keyword⟩
  · exact absurd rfl hne
  · rintro ⟨⟩
    exact hhead rfl

theorem orAll_cutLength {length : Option Length} {hasLength : Bool} {n : Nat} {t : Text}
    (hlength : ∀ l ∈ length, l.IsWritten) (hhas : length.isSome → hasLength)
    (ht : StartsIn ['(', ',', ':'] t) :
    orAll ((length.map Length.text).getD [] ++ (spaces n ++ t))
        (if hasLength then cutLength ((length.map Length.text).getD [] ++ (spaces n ++ t)) else none) =
      (length, spaces n ++ t) := by
  cases length with
  | none =>
    have hnone : cutLength (spaces n ++ t) = none :=
      cutLength_of_head_ne (ht.head_ne (by decide)) (ht.head_ne (by decide))
    rw [Option.map_none, Option.getD_none, List.nil_append, hnone, ite_self]
    rfl
  | some l =>
    rw [if_pos (hhas rfl), Option.map_some, Option.getD_some,
      cutLength_append (hlength l rfl) (startsIn_spaces_append n ht)]
    rfl

theorem orAll_cutGroup {parameters : Option Text} {n : Nat} {t : Text}
    (hparameters : ∀ g ∈ parameters, IsGroup g) (hn : parameters = none → n = 0)
    (ht : StartsIn [',', ':'] t) :
    orAll (parameters.getD [] ++ (spaces n ++ t)) (cutGroup (parameters.getD [] ++ (spaces n ++ t))) =
        (parameters, spaces n ++ t) ∧
      StartsIn ['(', ',', ':'] (parameters.getD [] ++ (spaces n ++ t)) := by
  cases parameters with
  | none =>
    obtain rfl := hn rfl
    have hnone : cutGroup t = none := cutGroup_of_head_ne (ht.head_ne (by decide))
    have hnil : Option.getD none [] ++ (spaces 0 ++ t) = t := rfl
    rw [hnil, hnone]
    exact ⟨rfl, ht.mono (by simp)⟩
  | some g =>
    have hg := hparameters g rfl
    rw [Option.getD_some, hg.cutGroup_append]
    exact ⟨rfl, (hg.startsIn _).mono (by simp)⟩

theorem startsIn_attributes {attributes : List Attribute} {n : Nat} {t : Text}
    (hbefore : ∀ a ∈ attributes.head?, a.before = 0) (hn : attributes = [] → n = 0)
    (ht : StartsIn [':'] t) :
    StartsIn [',', ':'] (attributes.flatMap Attribute.text ++ (spaces n ++ t)) := by
  cases attributes with
  | nil =>
    obtain rfl := hn rfl
    exact ht.mono (by simp)
  | cons a attributes =>
    obtain ⟨u, hu, hcomma⟩ :=
      startsIn_attribute a (attributes.flatMap Attribute.text ++ (spaces n ++ t))
    rw [List.flatMap_cons, List.append_assoc, hu, hbefore a rfl]
    exact hcomma.mono (by simp)

/-- A head with a double colon is read as it is written, whatever is behind it. -/
theorem cutHead_append {h : Head} (hw : h.IsWritten) (hs : h.IsSettled) (hcolons : h.doubleColon)
    (t : Text) : cutHead (h.text ++ t) = some (h, t) := by
  obtain ⟨indent, keyword, length, typeGap, parameters, parametersGap, attributes, attributesGap,
    doubleColon⟩ := h
  obtain rfl : doubleColon = true := hcolons
  obtain ⟨⟨hasLength, hkeyword, hhas⟩, hlength, hparameters, hattributes, hbefore⟩ := hw
  dsimp only at hkeyword hhas hlength hparameters hattributes hbefore
  have hcolon : StartsIn [':'] (':' :: ':' :: t) := startsIn_cons List.mem_cons_self _
  have hcomma := startsIn_attributes hbefore hs.attributes hcolon
  obtain ⟨hgroup, hstart⟩ := orAll_cutGroup hparameters hs.parameters hcomma
  have htext : Head.text ⟨indent, keyword, length, typeGap, parameters, parametersGap, attributes,
        attributesGap, true⟩ ++ t =
      spaces indent ++ (keyword ++ ((length.map Length.text).getD [] ++ (spaces typeGap ++
        (parameters.getD [] ++ (spaces parametersGap ++ (attributes.flatMap Attribute.text ++
          (spaces attributesGap ++ ':' :: ':' :: t))))))) := by
    simp [Head.text, Head.typeSpec, Head.attributesText, Head.colons]
  rw [htext, cutHead]
  simp only [cutSpaces_append _ (head_ne_of_mem_keywords hkeyword _), cutKeyword_append hkeyword,
    Option.bind_eq_bind, Option.bind_some, orAll_cutLength hlength hhas hstart,
    cutSpaces_append typeGap (hstart.head_ne (by decide)), hgroup,
    cutSpaces_append parametersGap (hcomma.head_ne (by decide)),
    cutAttributes_append hattributes attributesGap hcolon,
    cutSpaces_append attributesGap (hcolon.head_ne (by decide))]
  rfl

theorem ofText?_text_append {h : Head} (hw : h.IsWritten) (hcolons : h.doubleColon) {vars : Text}
    (hne : vars ≠ []) (hvars : '\n' ∉ vars) (newline : Bool) :
    ∃ d, ofText? (h.text ++ vars ++ if newline then ['\n'] else []) = some d ∧
      d.typeSpec = h.typeSpec ∧ d.parameters = h.parameters ∧
      d.attributes = (if h.attributes = [] then none else some h.attributesText) ∧
      d.doubleColon = true ∧ d.vars = vars := by
  have hinside : ∀ c ∈ vars, decide (c ≠ '\n') = true := by
    intro c hc
    exact decide_eq_true (ne_of_mem_of_not_mem hc hvars)
  have hrest : (vars ++ if newline then ['\n'] else []).takeWhile (· ≠ '\n') = vars := by
    rw [List.takeWhile_append_of_pos hinside]
    cases newline <;> simp
  have hcut := cutHead_append hw.settle h.isSettled_settle hcolons
    (vars ++ if newline then ['\n'] else [])
  refine ⟨ofRest h.settle (vars ++ if newline then ['\n'] else []), ?_, rfl, rfl, ?_, hcolons, hrest⟩
  · rw [← h.text_settle, List.append_assoc, ofText?, hcut]
    simp only [Option.bind_eq_bind, Option.bind_some, hrest, List.isEmpty_eq_false_iff.mpr hne,
      Bool.false_eq_true, if_false]
    rfl
  · rw [attributes]
    simp only [List.isEmpty_iff]
    rfl

end Declaration

end FreeForm
