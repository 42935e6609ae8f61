import FreeForm.Proofs.Matching

namespace FreeForm

namespace Declaration

open Text Regex Grammar

section

variable {t rest : Text}

theorem head_ne_cutSpaces (t : Text) : (cutSpaces t).2.head? ≠ some ' ' := by
  intro hspace
  rw [cutSpaces_snd] at hspace
  have hlast := List.head?_dropWhile_not (fun c : Char ↦ decide (c = ' ')) t
  rw [hspace] at hlast
  simp at hlast

theorem isWritten_of_cutLength {l : Length} (h : cutLength t = some (l, rest)) : l.IsWritten := by
  refine ⟨?_, Length.digits_of_cutLength h⟩
  rw [cutLength_eq] at h
  split at h
  · generalize cutSpaces (cutSpaces t).2.tail = cut at h
    obtain ⟨after, u⟩ := cut
    by_cases hnil : u.takeWhile Char.isDigit = []
    · simp [hnil] at h
    · simp only [hnil, if_false] at h
      cases h
      exact hnil
  · cases h

theorem Length.IsWritten.shorten {l m : Length} (hw : l.IsWritten) (hm : m ∈ l.shorten.1) :
    m.IsWritten := by
  rw [Length.shorten] at hm
  split at hm
  · next digits c hcut =>
    cases hm
    refine ⟨?_, fun d hd ↦ hw.digits d (by simp [← append_of_cutLast hcut, hd])⟩
    rw [cutLast] at hcut
    split at hcut
    · cases hcut
      simp
    · cases hcut
  · cases hm

theorem before_of_cutAttribute {a : Attribute} (h : cutAttribute t = some (a, rest)) :
    a.before = (cutSpaces t).1 := by
  rw [cutAttribute_eq] at h
  split at h
  · generalize cutSpaces (cutSpaces t).2.tail = cut at h
    obtain ⟨after, u⟩ := cut
    by_cases hnil : u.takeWhile isNameChar = []
    · simp [hnil] at h
    · simp only [hnil, if_false] at h
      split at h
      · cases h
        rfl
      · cases h
        rfl
  · cases h

theorem Attribute.IsWritten.shorten {a b : Attribute} (hw : a.IsWritten) (hb : b ∈ a.shorten.1) :
    b.IsWritten ∧ b.before = a.before := by
  rw [Attribute.shorten] at hb
  split at hb
  · cases hb
    exact ⟨⟨hw.name_ne_nil, hw.name, by simp⟩, rfl⟩
  · next name c hgroup hcut =>
    cases hb
    refine ⟨⟨?_, fun d hd ↦ hw.name d (by simp [← append_of_cutLast hcut, hd]), hw.group⟩, rfl⟩
    rw [cutLast] at hcut
    split at hcut
    · cases hcut
      simp
    · cases hcut
  · cases hb

theorem append_cutAttributes (t : Text) :
    (cutAttributes t).1.flatMap Attribute.text ++ (cutAttributes t).2 = t := by
  induction hlength : t.length using Nat.strongRecOn generalizing t with
  | _ n ih =>
    cases hcut : cutAttribute t with
    | none => rw [cutAttributes_of_none hcut, List.flatMap_nil, List.nil_append]
    | some parts =>
      obtain ⟨a, rest⟩ := parts
      rw [cutAttributes_of_some hcut, List.flatMap_cons, List.append_assoc,
        ih _ (hlength ▸ length_lt_of_cutAttribute hcut) rest rfl, append_of_cutAttribute hcut]

theorem before_of_mem_head?_cutAttributes (ht : t.head? ≠ some ' ') {a : Attribute}
    (ha : a ∈ (cutAttributes t).1.head?) : a.before = 0 := by
  cases hcut : cutAttribute t with
  | none =>
    rw [cutAttributes_of_none hcut] at ha
    cases ha
  | some parts =>
    obtain ⟨b, rest⟩ := parts
    rw [cutAttributes_of_some hcut] at ha
    cases ha
    have hspaces : cutSpaces t = (0, t) := cutSpaces_append 0 ht
    rw [before_of_cutAttribute hcut, hspaces]

theorem mem_keywords_of_cutKeyword {keyword : Text} {hasLength : Bool}
    (h : cutKeyword t = some (keyword, hasLength, rest)) :
    (keyword.map Char.toLower, hasLength) ∈ keywords := by
  rw [cutKeyword] at h
  obtain ⟨k, hk, hcut⟩ := List.exists_of_findSome?_eq_some h
  obtain ⟨⟨u, v⟩, hcut, heq⟩ := Option.map_eq_some_iff.mp hcut
  cases heq
  rwa [(cutWord_eq_some_iff.mp hcut).2]

end

@[simp] theorem spaces_zero : spaces 0 = [] := rfl

theorem spaces_succ (n : Nat) : spaces (n + 1) = spaces n ++ [' '] :=
  List.replicate_succ'

theorem Head.text_eq (h : Head) : h.text =
    spaces h.indent ++ h.keyword ++ (h.length.map Length.text).getD [] ++ spaces h.typeGap ++
      h.parameters.getD [] ++ spaces h.parametersGap ++ h.attributes.flatMap Attribute.text ++
      spaces h.attributesGap ++ if h.doubleColon then [':', ':'] else [] := by
  simp only [text, typeSpec, attributesText, colons, List.append_assoc]

/-- The head is as the grammar allows it, and with the text behind it makes up the whole text. -/
structure Covers (t : Text) (p : Head × Text) : Prop where
  isWritten : p.1.IsWritten
  append : p.1.text ++ p.2 = t

section

variable {t : Text} {p : Head × Text}

theorem append_orAll {α : Type} (text : α → Text) {o : Option (α × Text)}
    (h : ∀ a rest, o = some (a, rest) → text a ++ rest = t) :
    ((orAll t o).1.map text).getD [] ++ (orAll t o).2 = t := by
  cases o with
  | none => rfl
  | some parts => exact h parts.1 parts.2 rfl

theorem mem_orAll {α : Type} {o : Option (α × Text)} {a : α} (h : a ∈ (orAll t o).1) :
    ∃ rest, o = some (a, rest) := by
  cases o with
  | none => cases h
  | some parts =>
    cases h
    exact ⟨parts.2, rfl⟩

theorem append_cutColons (t : Text) :
    (if (cutColons t).1 then [':', ':'] else []) ++ (cutColons t).2 = t := by
  rw [cutColons.eq_def]
  split <;> rfl

theorem covers_of_cutHead (h : cutHead t = some p) : Covers t p := by
  rw [cutHead_eq] at h
  obtain ⟨⟨keyword, hasLength, u⟩, hkeyword, rfl⟩ := Option.map_eq_some_iff.mp h
  have hlength {l : Length} {rest : Text} (hl : (if hasLength then cutLength u else none) = some (l, rest)) :
      hasLength ∧ cutLength u = some (l, rest) := by
    cases hasLength with
    | true => exact ⟨rfl, hl⟩
    | false => cases hl
  simp only [Head.readTypeGap, Head.readParameters, Head.readParametersGap, Head.readAttributes,
    Head.readAttributesGap, Head.readColons]
  constructor
  · refine ⟨⟨hasLength, mem_keywords_of_cutKeyword hkeyword, ?_⟩, ?_, ?_, ?_, ?_⟩
    · intro hsome
      obtain ⟨l, hl⟩ := Option.isSome_iff_exists.mp hsome
      obtain ⟨rest, hcut⟩ := mem_orAll hl
      exact (hlength hcut).1
    · intro l hl
      obtain ⟨rest, hcut⟩ := mem_orAll hl
      exact isWritten_of_cutLength (hlength hcut).2
    · intro g hg
      obtain ⟨rest, hcut⟩ := mem_orAll hg
      exact isGroup_of_cutGroup hcut
    · intro a ha
      exact isWritten_of_mem_cutAttributes ha
    · intro a ha
      exact before_of_mem_head?_cutAttributes (head_ne_cutSpaces _) ha
  · have hparameters (t : Text) : (orAll t (cutGroup t)).1.getD [] ++ (orAll t (cutGroup t)).2 = t := by
      simpa using append_orAll id fun g rest hcut ↦ append_of_cutGroup hcut
    have happend := append_orAll Length.text fun l rest hcut ↦ append_of_cutLength (hlength hcut).2
    simp only [Head.text_eq, List.append_assoc, append_cutColons, spaces_cutSpaces_append,
      append_cutAttributes, hparameters, happend, append_of_cutKeyword hkeyword]

end

theorem hasVars_append {t : Text} (h : hasVars t) (rest : Text) : hasVars (t ++ rest) := by
  rcases t with _ | ⟨c, t⟩
  · cases h
  · rwa [List.cons_append, hasVars_cons, ← hasVars_cons c t]

section

variable {h : Head} {piece t : Text} {p q : Head × Text}

theorem covers_shortenLength {l : Length} {n : Nat} (hw : h.IsWritten) (hl : h.length = some l)
    (hparameters : h.parameters = none) (hattributes : h.attributes = []) (hcolon : h.doubleColon = false)
    (hgaps : h.typeGap = 0 ∧ h.parametersGap = 0 ∧ h.attributesGap = 0)
    (hpiece : l.shorten.2 = spaces n ++ piece) :
    Covers h.text ({ h with length := l.shorten.1, typeGap := n }, piece) := by
  obtain ⟨hasLength, hkeyword, hhas⟩ := hw.keyword
  constructor
  · refine ⟨⟨hasLength, hkeyword, fun _ ↦ hhas (by rw [hl]; rfl)⟩, ?_, hw.parameters, hw.attributes,
      hw.before⟩
    intro m hm
    exact (hw.length l hl).shorten hm
  · have htext := l.text_shorten
    rw [hpiece] at htext
    simp [Head.text_eq, hl, hparameters, hattributes, hcolon, hgaps, ← htext]

theorem covers_shortenAttribute {front : List Attribute} {a : Attribute} {n : Nat} (hw : h.IsWritten)
    (ha : h.attributes = front ++ [a]) (hgap : h.attributesGap = 0) (hcolon : h.doubleColon = false)
    (hpiece : a.shorten.2 = spaces n ++ piece) :
    Covers h.text ({ h with attributes := front ++ a.shorten.1.toList, attributesGap := n }, piece) := by
  have hwritten := hw.attributes
  have hbefore := hw.before
  rw [ha] at hwritten hbefore
  have hshorten {b : Attribute} (hb : b ∈ a.shorten.1) := (hwritten a (by simp)).shorten hb
  constructor
  · refine ⟨hw.keyword, hw.length, hw.parameters, ?_, ?_⟩
    · intro b hb
      rcases List.mem_append.mp hb with hb | hb
      · exact hwritten b (List.mem_append_left _ hb)
      · exact (hshorten (Option.mem_toList.mp hb)).1
    · intro b hb
      rcases front with _ | ⟨first, front⟩
      · have hb : b ∈ a.shorten.1 := by simpa using hb
        rw [(hshorten hb).2]
        exact hbefore a rfl
      · exact hbefore b hb
  · have htext := a.text_shorten
    have hlist : a.shorten.1.toList.flatMap Attribute.text = (a.shorten.1.map Attribute.text).getD [] := by
      cases a.shorten.1 <;> simp
    rw [hpiece, ← hlist] at htext
    simp [Head.text_eq, ha, hgap, hcolon, ← htext]

theorem covers_of_giveBack_of_nil (hw : h.IsWritten) (hattributes : h.attributes = [])
    (hgap : h.attributesGap = 0) (hcolon : h.doubleColon = false) (hback : h.giveBack = some p) :
    Covers h.text p ∧ hasVars p.2 := by
  obtain ⟨indent, keyword, length, typeGap, parameters, parametersGap, attributes, attributesGap,
    doubleColon⟩ := h
  obtain rfl : attributes = [] := hattributes
  obtain rfl : attributesGap = 0 := hgap
  obtain rfl : doubleColon = false := hcolon
  have ⟨hkeyword, hlength, hparameters, hattributes, hbefore⟩ := hw
  rcases parametersGap with _ | n
  · rcases parameters with _ | g
    · rcases typeGap with _ | n
      · rcases length with _ | l
        · cases hback
        · obtain ⟨n, c, u, hpiece, hc, hgive⟩ := Length.exists_shorten (hlength l rfl).digits
          have hgive := hgive ⟨indent, keyword, some l, 0, none, 0, [], 0, false⟩
          rw [hback] at hgive
          cases hgive
          exact ⟨covers_shortenLength hw rfl rfl rfl rfl ⟨rfl, rfl, rfl⟩ hpiece,
            hasVars_cons_of_ne (fun hnewline ↦ hc (by simp [hnewline])) u⟩
      · cases hback
        exact ⟨⟨⟨hkeyword, hlength, hparameters, hattributes, hbefore⟩,
          by simp [Head.text_eq, spaces_succ]⟩, rfl⟩
    · cases hback
      obtain ⟨u, -, rfl⟩ := hparameters g rfl
      exact ⟨⟨⟨hkeyword, hlength, by simp, hattributes, hbefore⟩, by simp [Head.text_eq]⟩,
        hasVars_cons_of_ne (by decide) _⟩
  · cases hback
    exact ⟨⟨⟨hkeyword, hlength, hparameters, hattributes, hbefore⟩,
      by simp [Head.text_eq, spaces_succ]⟩, rfl⟩

theorem covers_of_giveBack (hw : h.IsWritten) (hback : h.giveBack = some p) :
    Covers h.text p ∧ hasVars p.2 := by
  obtain ⟨indent, keyword, length, typeGap, parameters, parametersGap, attributes, attributesGap,
    doubleColon⟩ := h
  have ⟨hkeyword, hlength, hparameters, hattributes, hbefore⟩ := hw
  cases doubleColon with
  | true =>
    cases hback
    exact ⟨⟨⟨hkeyword, hlength, hparameters, hattributes, hbefore⟩, by simp [Head.text_eq]⟩, rfl⟩
  | false =>
    rcases attributesGap with _ | n
    · rcases List.eq_nil_or_concat attributes with rfl | ⟨front, a, hfront⟩
      · exact covers_of_giveBack_of_nil hw rfl rfl rfl hback
      · rw [List.concat_eq_append] at hfront
        subst hfront
        obtain ⟨n, c, u, hpiece, hc, -, hgive⟩ := (hattributes a (by simp)).exists_shorten
        have hgive := hgive ⟨indent, keyword, length, typeGap, parameters, parametersGap, front ++ [a], 0,
          false⟩ front
        rw [hback] at hgive
        cases hgive
        exact ⟨covers_shortenAttribute hw rfl rfl rfl hpiece,
          hasVars_cons_of_ne (fun hnewline ↦ hc (by simp [hnewline])) u⟩
    · cases hback
      exact ⟨⟨⟨hkeyword, hlength, hparameters, hattributes, hbefore⟩,
        by simp [Head.text_eq, spaces_succ]⟩, rfl⟩

theorem covers_of_makeRoom (hp : Covers t p) (hroom : makeRoom p = some q) : Covers t q ∧ hasVars q.2 := by
  obtain ⟨h, rest⟩ := p
  by_cases hrest : hasVars rest
  · rw [makeRoom_of_hasVars h hrest] at hroom
    cases hroom
    exact ⟨hp, hrest⟩
  · rw [makeRoom_of_not h hrest] at hroom
    obtain ⟨⟨h', piece⟩, hback, rfl⟩ := Option.map_eq_some_iff.mp hroom
    obtain ⟨⟨hw, htext⟩, hpiece⟩ := covers_of_giveBack hp.isWritten hback
    dsimp only at htext hpiece ⊢
    refine ⟨⟨hw, ?_⟩, hasVars_append hpiece rest⟩
    rw [← List.append_assoc, htext]
    exact hp.append

end

def IsTypeSpec (t : Text) : Prop :=
  ∃ keyword hasLength, ∃ length : Option Length, t = keyword ++ (length.map Length.text).getD [] ∧
    (keyword.map Char.toLower, hasLength) ∈ keywords ∧ (length.isSome → hasLength) ∧
    ∀ l ∈ length, l.IsWritten

def IsAttributeList (t : Text) : Prop :=
  ∃ attributes : List Attribute, attributes ≠ [] ∧ t = attributes.flatMap Attribute.text ∧
    (∀ a ∈ attributes, a.IsWritten) ∧ ∀ a ∈ attributes.head?, a.before = 0

theorem IsAttributeList.head? {t : Text} (h : IsAttributeList t) : t.head? = some ',' := by
  obtain ⟨attributes, hne, rfl, -, hbefore⟩ := h
  obtain ⟨a, attributes, rfl⟩ := List.exists_cons_of_ne_nil hne
  rw [List.flatMap_cons, Attribute.text, hbefore a rfl]
  rfl

/-- The parts of the declaration stand in the line in their order with spaces between them, `rest` is behind
them, and each part is as the grammar allows it. -/
structure IsSplitOf (d : Declaration) (line rest : Text) : Prop where
  line : ∃ indent typeGap parametersGap attributesGap, line =
    spaces indent ++ d.typeSpec ++ spaces typeGap ++ d.parameters.getD [] ++ spaces parametersGap ++
      d.attributes.getD [] ++ spaces attributesGap ++ (if d.doubleColon then [':', ':'] else []) ++
      d.vars ++ rest
  rest : rest = [] ∨ rest.head? = some '\n'
  typeSpec : IsTypeSpec d.typeSpec
  parameters : ∀ g ∈ d.parameters, IsGroup g
  attributes : ∀ a ∈ d.attributes, a.head? = some ',' ∧ IsAttributeList a
  vars : d.vars ≠ [] ∧ '\n' ∉ d.vars

theorem isSplitOf_ofRest {t rest : Text} {h : Head} (hcovers : Covers t (h, rest)) (hrest : hasVars rest) :
    (ofRest h rest).IsSplitOf t (rest.dropWhile (· ≠ '\n')) := by
  obtain ⟨hw, rfl⟩ := hcovers
  constructor
  · refine ⟨h.indent, h.typeGap, h.parametersGap, h.attributesGap, ?_⟩
    have hattributes : (ofRest h rest).attributes.getD [] = h.attributesText := by
      rw [attributes]
      cases hnil : h.attributes <;> simp [ofRest, hnil, Head.attributesText]
    have hvars : (ofRest h rest).vars ++ rest.dropWhile (· ≠ '\n') = rest := List.takeWhile_append_dropWhile
    rw [hattributes, List.append_assoc _ (ofRest h rest).vars, hvars]
    rfl
  · rcases hdrop : rest.dropWhile (· ≠ '\n') with _ | ⟨c, u⟩
    · exact .inl rfl
    · have hc := List.head?_dropWhile_not (fun c : Char ↦ decide (c ≠ '\n')) rest
      rw [hdrop] at hc
      exact .inr (by simpa using hc)
  · obtain ⟨hasLength, hkeyword, hhas⟩ := hw.keyword
    exact ⟨h.keyword, hasLength, h.length, rfl, hkeyword, hhas, hw.length⟩
  · exact hw.parameters
  · intro a ha
    have hlist : IsAttributeList a := by
      rw [attributes] at ha
      split at ha
      · cases ha
      · next hne =>
        cases ha
        exact ⟨h.attributes, by simpa [ofRest] using hne, rfl, hw.attributes, hw.before⟩
    exact ⟨hlist.head?, hlist⟩
  · constructor
    · change rest.takeWhile (· ≠ '\n') ≠ []
      simpa [hasVars] using hrest
    · intro hmem
      simpa using List.all_eq_true.mp List.all_takeWhile '\n' hmem

/-- A declaration is its line taken apart, also if the head had to give something back, and a search for the
pattern captures its parts. -/
theorem parts_cover {t : Text} {d : Declaration} (h : ofText? t = some d) :
    (∃ rest, d.IsSplitOf t rest) ∧ (declaration.match? t).map Prod.fst = some d.captured := by
  constructor
  · rw [ofText?_eq] at h
    obtain ⟨⟨head, rest⟩, hroom, rfl⟩ := Option.map_eq_some_iff.mp h
    obtain ⟨p, hcut, hroom⟩ := Option.bind_eq_some_iff.mp hroom
    obtain ⟨hcovers, hrest⟩ := covers_of_makeRoom (covers_of_cutHead hcut) hroom
    exact ⟨_, isSplitOf_ofRest hcovers hrest⟩
  · rw [match?_declaration, h, Option.map_some]

def intentText : Text :=
  " Character * 80(len=f(n)), intent (in)\n:: s".toList

/-- Nothing follows the group of the last attribute, which hence becomes the entities. -/
def intentDeclaration : Declaration where
  head :=
    { indent := 1
      keyword := "Character".toList
      length := some ⟨1, 1, "80".toList⟩
      typeGap := 0
      parameters := some "(len=f(n))".toList
      parametersGap := 0
      attributes := [⟨0, 1, "intent".toList, none⟩]
      attributesGap := 1
      doubleColon := false }
  vars := "(in)".toList
  newline := true

theorem parts_cover_intentText :
    ofText? intentText = some intentDeclaration ∧
      (∃ rest, intentDeclaration.IsSplitOf intentText rest) ∧
      (declaration.match? intentText).map Prod.fst = some intentDeclaration.captured := by
  have h : ofText? intentText = some intentDeclaration := by
    decide +kernel
  exact ⟨h, parts_cover h⟩

/-- A match needs a keyword and something left for the entities behind it; whatever else comes there, some way
to match it is found. -/
theorem isSome_first_fromType (t : Text) : (fromType.first (fun _ ↦ true) t).isSome =
    (cutKeyword t).any fun (_, _, rest) ↦ hasVars rest := by
  have htypes := first_types hasVars t
  rw [first_fromType]
  cases hkeyword : cutKeyword t with
  | none =>
    rw [hkeyword, Option.bind_none] at htypes
    rw [first_capture_of_none _ htypes]
    rfl
  | some parts =>
    obtain ⟨keyword, hasLength, rest⟩ := parts
    simp only [hkeyword, Option.bind_some, first_typeEnd] at htypes
    by_cases hrest : hasVars rest
    · rw [if_pos hrest] at htypes
      rw [first_capture, htypes, Option.map_some, Option.bind_some, Option.isSome_map,
        reads_fromTypeGap.isSome, of_first_eq_some htypes, Option.any_some]
      exact hrest.symm
    · rw [if_neg hrest] at htypes
      rw [first_capture_of_none _ htypes, Option.bind_none, Option.any_some]
      simpa using hrest

theorem isSome_match?_declaration (t : Text) : (declaration.match? t).isSome =
    (cutKeyword (cutSpaces t).2).any fun (_, _, rest) ↦ hasVars rest := by
  have hspace (t : Text) : fromType.first (fun _ ↦ true) (' ' :: t) = none := first_fromType_of_none rfl
  rw [match?_eq_first, declaration, first_seq_blanks hspace, isSome_first_fromType]

theorem isSome_ofText? (t : Text) : (ofText? t).isSome = (declaration.match? t).isSome := by
  have hparts := congrArg Option.isSome (match?_declaration t)
  rw [Option.isSome_map, Option.isSome_map] at hparts
  exact hparts.symm

theorem any_cutKeyword_iff {t : Text} : ((cutKeyword (cutSpaces t).2).any fun (_, _, rest) ↦ hasVars rest) ↔
    ∃ n keyword c rest, t = spaces n ++ keyword ++ c :: rest ∧
      (∃ k ∈ keywords, keyword.map Char.toLower = k.1) ∧ c ≠ '\n' := by
  rw [Option.any_eq_true]
  constructor
  · rintro ⟨⟨keyword, hasLength, rest⟩, hcut, hrest⟩
    rcases rest with _ | ⟨c, rest⟩
    · cases hrest
    · refine ⟨(cutSpaces t).1, keyword, c, rest, ?_, ⟨_, mem_keywords_of_cutKeyword hcut, rfl⟩, ?_⟩
      · rw [List.append_assoc, append_of_cutKeyword hcut, spaces_cutSpaces_append]
      · simpa [hasVars_cons] using hrest
  · rintro ⟨n, keyword, c, rest, rfl, ⟨⟨_, hasLength⟩, hk, rfl⟩, hc⟩
    refine ⟨(keyword, hasLength, c :: rest), ?_, hasVars_cons_of_ne hc rest⟩
    rw [List.append_assoc, cutSpaces_append n (head_ne_of_mem_keywords hk _)]
    exact cutKeyword_append hk _

/-- The lower case form, also of the two characters outside ASCII that are case variants of ASCII letters. -/
def foldCase (c : Char) : Char :=
  if c = '\u017f' then 's' else if c = '\u212a' then 'k' else c.toLower

theorem map_foldCase_eq_iff {k : Text × Bool} (hk : k ∈ keywords) {u : Text} :
    u.map foldCase = k.1 ↔ u.map Char.toLower = k.1 := by
  have hall : (keywords.all fun k ↦ k.1.all fun c ↦
      c != 's' && c != 'k' && c != '\u017f' && c != '\u212a') = true := by decide
  have hletters : ∀ c ∈ k.1, c ≠ 's' ∧ c ≠ 'k' ∧ c ≠ '\u017f' ∧ c ≠ '\u212a' := by
    intro c hc
    have hcheck := List.all_eq_true.mp (List.all_eq_true.mp hall k hk) c hc
    simpa only [Bool.and_eq_true, bne_iff_ne, and_assoc] using hcheck
  have hcongr (h : ∀ c ∈ u, c ≠ '\u017f' ∧ c ≠ '\u212a') : u.map foldCase = u.map Char.toLower := by
    apply List.map_congr_left
    intro c hc
    rw [foldCase, if_neg (h c hc).1, if_neg (h c hc).2]
  constructor
  · intro hfold
    rw [← hcongr, hfold]
    intro c hc
    have hmem : foldCase c ∈ k.1 := hfold ▸ List.mem_map_of_mem hc
    constructor
    · rintro rfl
      exact (hletters 's' hmem).1 rfl
    · rintro rfl
      exact (hletters 'k' hmem).2.1 rfl
  · intro hlower
    rw [hcongr, hlower]
    intro c hc
    have hmem : c.toLower ∈ k.1 := hlower ▸ List.mem_map_of_mem hc
    constructor
    · rintro rfl
      exact (hletters '\u017f' hmem).2.2.1 rfl
    · rintro rfl
      exact (hletters '\u212a' hmem).2.2.2 rfl

/-- Exactly those lines are declarations in which some character other than a newline follows the keyword at
the start, whatever comes behind it. The keywords have no letters but those of ASCII. -/
theorem isDeclaration_iff (t : Text) :
    ((ofText? t).isSome ↔ ∃ n keyword c rest, t = spaces n ++ keyword ++ c :: rest ∧
      (∃ k ∈ keywords, keyword.map Char.toLower = k.1) ∧ c ≠ '\n') ∧
    (ofText? t).isSome = (declaration.match? t).isSome ∧
    ∀ k ∈ keywords, ∀ u : Text, u.map foldCase = k.1 ↔ u.map Char.toLower = k.1 := by
  refine ⟨?_, isSome_ofText? t, fun k hk u ↦ map_foldCase_eq_iff hk⟩
  rw [isSome_ofText?, isSome_match?_declaration]
  exact any_cutKeyword_iff

end Declaration

end FreeForm
