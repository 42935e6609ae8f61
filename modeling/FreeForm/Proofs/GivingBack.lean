import FreeForm.Proofs.Grammar

namespace FreeForm

namespace Declaration

open Regex Grammar

section

variable {word u : Text} {c : Char}

def cutLast (word : Text) : Option (Text × Char) :=
  match word.reverse with
  | c :: d :: u => some ((d :: u).reverse, c)
  | _ => none

theorem append_of_cutLast (h : cutLast word = some (u, c)) : u ++ [c] = word := by
  rw [cutLast] at h
  split at h
  · next c d u hword =>
    cases h
    rw [← List.reverse_cons, ← hword, List.reverse_reverse]
  · cases h

theorem getLast?_tail (word : Text) : word.tail.getLast? = (cutLast word).map Prod.snd := by
  rw [cutLast]
  split
  · next c d u hword =>
    have hword : word = u.reverse ++ [d] ++ [c] := by
      rw [← List.reverse_cons, ← List.reverse_cons, ← hword, List.reverse_reverse]
    rw [hword, List.tail_append_of_ne_nil (by simp)]
    simp
  · next hword =>
    rcases word with _ | ⟨c, word⟩
    · rfl
    · rcases List.eq_nil_or_concat word with rfl | ⟨u, d, rfl⟩
      · rfl
      · exfalso
        cases hu : (c :: u).reverse with
        | nil => simp at hu
        | cons e v => exact hword d e v (by rw [← hu]; simp)

end

section

variable {t rest : Text}

def Length.shorten (l : Length) : Option Length × Text :=
  match cutLast l.digits with
  | some (digits, c) => (some { l with digits := digits }, [c])
  | none => (none, l.text)

theorem Length.text_shorten (l : Length) :
    (l.shorten.1.map Length.text).getD [] ++ l.shorten.2 = l.text := by
  rw [shorten]
  split
  · next digits c h => simp [text, ← append_of_cutLast h]
  · rfl

theorem cutLength_eq (t : Text) : cutLength t =
    if (cutSpaces t).2.head? = some '*' then
      let (after, u) := cutSpaces (cutSpaces t).2.tail
      if u.takeWhile Char.isDigit = [] then none
      else some (⟨(cutSpaces t).1, after, u.takeWhile Char.isDigit⟩, u.dropWhile Char.isDigit)
    else none := by
  rw [cutLength]
  obtain ⟨n, _ | ⟨c, t⟩⟩ := cutSpaces t
  · rfl
  · by_cases hc : c = '*'
    · simp only [hc, List.head?_cons, List.tail_cons, if_true]
      split
      · next hnil => rw [if_pos hnil]
      · next hne => rw [if_neg hne]
    · simp [hc]

theorem first_length (t : Text) : length.first hasVars t =
    (cutLength t).bind fun (l, rest) ↦
      if hasVars rest then some ([], rest)
      else l.shorten.1.map fun _ ↦ ([], l.shorten.2 ++ rest) := by
  have hempty (c : Char) (t : Text) (hc : c.isDigit) :
      (empty : Regex Part).first hasVars (c :: t) = some ([], c :: t) := by
    have hc := not_mem_of_class ['\n'] (by decide) hc
    rw [first_empty, if_pos (hasVars_cons_of_ne (List.ne_of_not_mem_cons hc) t)]
  have hspace (t : Text) : (plus (one Char.isDigit) : Regex Part).first hasVars (' ' :: t) = none := by
    rw [plus, first_seq_one]
    rfl
  have hspace' (t : Text) : (seq (char '*') (seq blanks (plus (one Char.isDigit)))).first hasVars
      (' ' :: t) = none := by
    rw [first_seq_char]
    rfl
  rw [length, first_seq_blanks hspace', first_seq_char, cutLength_eq]
  by_cases hstar : (cutSpaces t).2.head? = some '*'
  · rw [if_pos hstar, if_pos hstar, first_seq_blanks hspace, ← first_seq_empty,
      first_seq_plus_of_some hempty, first_empty]
    obtain ⟨after, u⟩ := cutSpaces (cutSpaces t).2.tail
    by_cases hnil : u.takeWhile Char.isDigit = []
    · simp only [hnil, if_true, Option.bind_none]
    · simp only [hnil, if_false, Option.bind_some, getLast?_tail, Length.shorten]
      cases cutLast (u.takeWhile Char.isDigit) <;>
        by_cases hvars : hasVars (u.dropWhile Char.isDigit) <;> simp [hvars]
  · rw [if_neg hstar, if_neg hstar, Option.bind_none]

theorem Length.digits_of_cutLength {l : Length} (h : cutLength t = some (l, rest)) :
    ∀ c ∈ l.digits, c.isDigit := by
  rw [cutLength_eq] at h
  split at h
  · generalize cutSpaces (cutSpaces t).2.tail = cut at h
    obtain ⟨after, u⟩ := cut
    by_cases hnil : u.takeWhile Char.isDigit = []
    · simp [hnil] at h
    · simp only [hnil, if_false] at h
      cases h
      exact List.all_eq_true.mp List.all_takeWhile
  · cases h

theorem append_of_cutLength {l : Length} (h : cutLength t = some (l, rest)) :
    l.text ++ rest = t := by
  rw [cutLength_eq] at h
  split at h
  · next hstar =>
    have hbefore := spaces_cutSpaces_append t
    have hafter := spaces_cutSpaces_append (cutSpaces t).2.tail
    obtain ⟨u, hu⟩ := List.head?_eq_some_iff.mp hstar
    rw [hu, List.tail_cons] at h hafter
    rw [hu] at hbefore
    by_cases hnil : (cutSpaces u).2.takeWhile Char.isDigit = []
    · simp [hnil] at h
    · simp only [hnil, if_false] at h
      cases h
      simp only [Length.text, List.append_assoc, List.cons_append, List.takeWhile_append_dropWhile, hafter,
        hbefore]
  · cases h

/-- The length behind a type and what follows it. The length gives text back if nothing else is left for
the entities. -/
def keptLength (hasLength : Bool) (t : Text) : Option Length × Text :=
  match if hasLength then cutLength t else none with
  | some (l, rest) => if hasVars rest then (some l, rest) else (l.shorten.1, l.shorten.2 ++ rest)
  | none => (none, t)

theorem text_keptLength (hasLength : Bool) (t : Text) :
    ((keptLength hasLength t).1.map Length.text).getD [] ++ (keptLength hasLength t).2 = t := by
  rw [keptLength]
  split
  · next l rest h =>
    have htext : l.text ++ rest = t := by
      cases hasLength with
      | true => exact append_of_cutLength h
      | false => cases h
    by_cases hrest : hasVars rest
    · simpa [hrest] using htext
    · simpa [hrest, ← List.append_assoc, l.text_shorten] using htext
  · rfl

theorem keptLength_of_not_hasVars (hasLength : Bool) (h : ¬hasVars t) :
    keptLength hasLength t = (none, t) := by
  rw [keptLength, cutLength_of_not_hasVars h, ite_self]

theorem first_typeEnd (hasLength : Bool) (t : Text) :
    (if hasLength then opt length else empty : Regex Part).first hasVars t =
      if hasVars t then some ([], (keptLength hasLength t).2) else none := by
  cases hasLength with
  | false => exact first_empty hasVars t
  | true =>
    rw [if_pos rfl, first_opt, first_length, keptLength, if_pos rfl]
    cases h : cutLength t with
    | none => simp
    | some parts =>
      obtain ⟨l, rest⟩ := parts
      have hvars : hasVars t := by
        rw [← append_of_cutLength h, Length.text, List.append_assoc, List.append_assoc]
        exact hasVars_spaces_append (hasVars_cons_of_ne (by decide) _) _
      by_cases hrest : hasVars rest
      · simp [hrest, hvars]
      · have hshorten := l.text_shorten
        cases hleft : l.shorten.1 with
        | some l' => simp [hrest, hvars, hleft]
        | none =>
          rw [hleft, Option.map_none, Option.getD_none, List.nil_append] at hshorten
          simp [hrest, hvars, hleft, hshorten, append_of_cutLength h]

/-- The text that a length gives back starts with spaces at most, before something that starts no other
part of a head. -/
theorem Length.exists_shorten {l : Length} (hdigits : ∀ c ∈ l.digits, c.isDigit) : ∃ n c u,
    l.shorten.2 = spaces n ++ c :: u ∧ c ∉ [' ', ':', ',', '(', '\n'] ∧ ∀ h : Head,
      Head.giveBack { h with
        length := some l
        typeGap := 0
        parameters := none
        parametersGap := 0
        attributes := []
        attributesGap := 0
        doubleColon := false } =
          some ({ h with
            length := l.shorten.1
            typeGap := n
            parameters := none
            parametersGap := 0
            attributes := []
            attributesGap := 0
            doubleColon := false }, c :: u) := by
  rw [shorten]
  split
  · next digits c hcut =>
    have hc : c.isDigit := hdigits c (by simp [← append_of_cutLast hcut])
    refine ⟨0, c, [], rfl, not_mem_of_class _ (by decide) hc, ?_⟩
    · intro h
      rw [cutLast] at hcut
      split at hcut
      · next hreverse =>
        cases hcut
        simp [Head.giveBack, hreverse]
      · cases hcut
  · next hcut =>
    refine ⟨l.before, '*', spaces l.after ++ l.digits, by simp [text], by decide, ?_⟩
    intro h
    rw [cutLast] at hcut
    split at hcut
    · cases hcut
    · next hreverse =>
      rcases hdigits : l.digits.reverse with _ | ⟨c, _ | ⟨d, u⟩⟩
      · simp [Head.giveBack, hdigits]
      · simp [Head.giveBack, hdigits]
      · exact absurd hdigits (hreverse c d u)

end

section

variable {a : Attribute} {c : Char} {t rest : Text}

def Attribute.shorten (a : Attribute) : Option Attribute × Text :=
  match a.group, cutLast a.name with
  | some (gap, group), _ => (some { a with group := none }, spaces gap ++ group)
  | none, some (name, c) => (some { a with name := name }, [c])
  | none, none => (none, a.text)

theorem Attribute.text_shorten (a : Attribute) :
    (a.shorten.1.map Attribute.text).getD [] ++ a.shorten.2 = a.text := by
  rw [shorten]
  split
  · next hgroup => simp [text, groupText, hgroup]
  · next name c hgroup hname => simp [text, groupText, hgroup, ← append_of_cutLast hname]
  · rfl

theorem cutAttribute_eq (t : Text) : cutAttribute t =
    if (cutSpaces t).2.head? = some ',' then
      let (after, u) := cutSpaces (cutSpaces t).2.tail
      let name := u.takeWhile isNameChar
      let rest := u.dropWhile isNameChar
      if name = [] then none
      else match cutGroup (cutSpaces rest).2 with
        | some (group, v) => some (⟨(cutSpaces t).1, after, name, some ((cutSpaces rest).1, group)⟩, v)
        | none => some (⟨(cutSpaces t).1, after, name, none⟩, rest)
    else none := by
  rw [cutAttribute]
  obtain ⟨n, _ | ⟨c, t⟩⟩ := cutSpaces t
  · rfl
  · by_cases hc : c = ','
    · simp only [hc, List.head?_cons, List.tail_cons, if_true]
      split
      · next hnil => rw [if_pos hnil]
      · next hne => exact (if_neg hne).symm
    · simp [hc]

theorem first_opt_group (t : Text) : (opt (seq blanks group)).first hasVars t =
    match cutGroup (cutSpaces t).2 with
    | some (_, rest) => if hasVars rest then some ([], rest) else some ([], t)
    | none => if hasVars t then some ([], t) else none := by
  have hspace (t : Text) : group.first hasVars (' ' :: t) = none := by
    rw [first_group]
    rfl
  rw [first_opt, first_seq_blanks hspace, first_group]
  cases hgroup : cutGroup (cutSpaces t).2 with
  | none => rfl
  | some parts =>
    obtain ⟨g, rest⟩ := parts
    have hvars : hasVars t := by
      obtain ⟨u, -, rfl⟩ := isGroup_of_cutGroup hgroup
      rw [← spaces_cutSpaces_append t, ← append_of_cutGroup hgroup]
      exact hasVars_spaces_append (hasVars_cons_of_ne (by decide) _) _
    by_cases hrest : hasVars rest <;> simp [hrest, hvars]

theorem first_oneAttribute (t : Text) : oneAttribute.first hasVars t =
    (cutAttribute t).bind fun (a, rest) ↦
      if hasVars rest then some ([], rest)
      else a.shorten.1.map fun _ ↦ ([], a.shorten.2 ++ rest) := by
  have hname (c : Char) (t : Text) (hc : isNameChar c) :
      (opt (seq blanks group)).first hasVars (c :: t) = some ([], c :: t) := by
    have hc := not_mem_of_class [' ', '(', '\n'] (by decide) hc
    have hends := startsOutside_cons hc t
    have hspaces : cutSpaces (c :: t) = (0, c :: t) := cutSpaces_append 0 (hends ' ' (by simp))
    have hvars : hasVars (c :: t) := hasVars_cons_of_ne (fun hnewline ↦ hc (by simp [hnewline])) t
    rw [first_opt_group, hspaces, cutGroup_of_head_ne (hends '(' (by simp)), if_pos hvars]
  have hspace (t : Text) : (seq (plus (one isNameChar)) (opt (seq blanks group))).first hasVars
      (' ' :: t) = none := by
    rw [first_seq_plus_of_some hname]
    rfl
  have hspace' (t : Text) : (seq (char ',') (seq blanks (seq (plus (one isNameChar))
      (opt (seq blanks group))))).first hasVars (' ' :: t) = none := by
    rw [first_seq_char]
    rfl
  rw [oneAttribute, first_seq_blanks hspace', first_seq_char, cutAttribute_eq]
  by_cases hcomma : (cutSpaces t).2.head? = some ','
  · rw [if_pos hcomma, if_pos hcomma, first_seq_blanks hspace, first_seq_plus_of_some hname,
      first_opt_group]
    obtain ⟨after, u⟩ := cutSpaces (cutSpaces t).2.tail
    by_cases hnil : u.takeWhile isNameChar = []
    · simp only [hnil, if_true, Option.bind_none]
    · simp only [hnil, if_false]
      have hback := spaces_cutSpaces_append (u.dropWhile isNameChar)
      cases hgroup : cutGroup (cutSpaces (u.dropWhile isNameChar)).2 with
      | some parts =>
        obtain ⟨g, rest⟩ := parts
        rw [← append_of_cutGroup hgroup, ← List.append_assoc] at hback
        by_cases hrest : hasVars rest
        · simp [hrest]
        · simp only [hrest, Bool.false_eq_true, if_false, Option.some_or, Option.bind_some,
            Attribute.shorten, Option.map_some, hback]
      | none =>
        simp only [Option.bind_some, getLast?_tail, Attribute.shorten]
        cases cutLast (u.takeWhile isNameChar) <;>
          by_cases hrest : hasVars (u.dropWhile isNameChar) <;> simp [hrest]
  · rw [if_neg hcomma, if_neg hcomma, Option.bind_none]

theorem mem_ways_oneAttribute {m : Match Part} (h : m ∈ oneAttribute.ways t) :
    hasVars t ∧ m.2.length < t.length := by
  obtain ⟨m₁, hm₁, m₂, hm₂, rfl⟩ := mem_ways_seq.mp h
  obtain ⟨-, u, hu, rfl⟩ := exists_of_mem_ways_star_one hm₁
  obtain ⟨m₃, hm₃, m₄, hm₄, rfl⟩ := mem_ways_seq.mp hm₂
  obtain ⟨c, hc, hcomma, -⟩ := mem_ways_one.mp hm₃
  obtain rfl : c = ',' := of_decide_eq_true hc
  have hle := (suffix_of_mem_ways hm₄).length_le
  rw [hcomma]
  constructor
  · rcases u with _ | ⟨d, u⟩
    · exact hasVars_cons_of_ne (by decide) _
    · have hd : decide (d = ' ') := hu d List.mem_cons_self
      exact hasVars_cons_of_ne (by rw [of_decide_eq_true hd]; decide) _
  · simp only [Match.prepend, List.length_append, List.length_cons]
    omega

theorem isWritten_of_cutAttribute (h : cutAttribute t = some (a, rest)) : a.IsWritten := by
  rw [cutAttribute_eq] at h
  split at h
  · generalize cutSpaces (cutSpaces t).2.tail = cut at h
    obtain ⟨after, u⟩ := cut
    by_cases hnil : u.takeWhile isNameChar = []
    · simp [hnil] at h
    · have hname : ∀ c ∈ u.takeWhile isNameChar, isNameChar c :=
        List.all_eq_true.mp List.all_takeWhile
      simp only [hnil, if_false] at h
      split at h
      · next hgroup =>
        cases h
        refine ⟨hnil, hname, ?_⟩
        rintro g ⟨⟩
        exact isGroup_of_cutGroup hgroup
      · cases h
        exact ⟨hnil, hname, by simp⟩
  · cases h

/-- The text that the last attribute gives back starts with spaces at most, before something that is no
part of an attribute unless it is a whole one. -/
theorem Attribute.IsWritten.exists_shorten (hw : a.IsWritten) : ∃ n c u,
    a.shorten.2 = spaces n ++ c :: u ∧ c ∉ [' ', ':', '\n'] ∧ (a.shorten.1.isSome → c ≠ ',') ∧
      ∀ (h : Head) (front : List Attribute),
        Head.giveBack { h with attributes := front ++ [a], attributesGap := 0, doubleColon := false } =
          some ({ h with
            attributes := front ++ a.shorten.1.toList
            attributesGap := n
            doubleColon := false }, c :: u) := by
  rw [shorten]
  split
  · next gap group hgroup =>
    obtain ⟨u, -, rfl⟩ := hw.group _ hgroup
    refine ⟨gap, '(', _, rfl, by decide, fun _ ↦ by decide, ?_⟩
    intro h front
    simp [Head.giveBack, hgroup]
  · next name c hgroup hname =>
    have hc : isNameChar c := hw.name c (by simp [← append_of_cutLast hname])
    refine ⟨0, c, [], rfl, not_mem_of_class _ (by decide) hc, ?_, ?_⟩
    · exact fun _ ↦ List.ne_of_not_mem_cons (not_mem_of_class [','] (by decide) hc)
    · intro h front
      rw [cutLast] at hname
      split at hname
      · next hreverse =>
        cases hname
        simp [Head.giveBack, hgroup, hreverse]
      · cases hname
  · next hgroup hname =>
    refine ⟨a.before, ',', spaces a.after ++ a.name, ?_, by decide, nofun, ?_⟩
    · simp [text, groupText, hgroup]
    · intro h front
      rw [cutLast] at hname
      split at hname
      · cases hname
      · next hreverse =>
        rcases hname : a.name.reverse with _ | ⟨c, _ | ⟨d, u⟩⟩
        · simp [Head.giveBack, hgroup, hname]
        · simp [Head.giveBack, hgroup, hname]
        · exact absurd hname (hreverse c d u)

end

section

variable {a : Attribute} {t rest : Text}

/-- The attributes at the start and what follows them. The last attribute gives text back if nothing
else is left for the entities. -/
def keptAttributes (t : Text) : List Attribute × Text :=
  let (attributes, rest) := cutAttributes t
  if hasVars rest then (attributes, rest)
  else match attributes.getLast? with
    | some a => (attributes.dropLast ++ a.shorten.1.toList, a.shorten.2 ++ rest)
    | none => ([], rest)

theorem isWritten_of_mem_cutAttributes (h : a ∈ (cutAttributes t).1) : a.IsWritten := by
  induction hlength : t.length using Nat.strongRecOn generalizing t with
  | _ n ih =>
    cases hcut : cutAttribute t with
    | none =>
      rw [cutAttributes_of_none hcut] at h
      cases h
    | some parts =>
      obtain ⟨b, rest⟩ := parts
      rw [cutAttributes_of_some hcut] at h
      rcases List.mem_cons.mp h with rfl | h
      · exact isWritten_of_cutAttribute hcut
      · exact ih _ (hlength ▸ length_lt_of_cutAttribute hcut) h rfl

theorem keptAttributes_of_none (h : cutAttribute t = none) : keptAttributes t = ([], t) := by
  rw [keptAttributes, cutAttributes_of_none h]
  exact ite_self _

theorem keptAttributes_of_last (h : cutAttribute t = some (a, rest)) (hrest : ¬hasVars rest) :
    keptAttributes t = (a.shorten.1.toList, a.shorten.2 ++ rest) := by
  rw [keptAttributes, cutAttributes_of_some h,
    cutAttributes_of_none (cutAttribute_of_not_hasVars hrest)]
  simp [hrest]

theorem keptAttributes_of_some (h : cutAttribute t = some (a, rest)) (hrest : hasVars rest) :
    keptAttributes t = (a :: (keptAttributes rest).1, (keptAttributes rest).2) := by
  cases hnext : cutAttribute rest with
  | none =>
    rw [keptAttributes_of_none hnext, keptAttributes, cutAttributes_of_some h,
      cutAttributes_of_none hnext]
    simp [hrest]
  | some parts =>
    obtain ⟨b, u⟩ := parts
    rw [keptAttributes, keptAttributes, cutAttributes_of_some h, cutAttributes_of_some hnext]
    obtain ⟨attributes, v⟩ := cutAttributes u
    by_cases hv : hasVars v
    · simp [hv]
    · simp only [hv, Bool.false_eq_true, if_false, List.getLast?_cons_cons, List.dropLast_cons_cons]
      cases hlast : (b :: attributes).getLast? with
      | none => simp at hlast
      | some c => rfl

theorem text_keptAttributes (t : Text) :
    (keptAttributes t).1.flatMap Attribute.text ++ (keptAttributes t).2 = t := by
  induction hlength : t.length using Nat.strongRecOn generalizing t with
  | _ n ih =>
    cases h : cutAttribute t with
    | none => rw [keptAttributes_of_none h, List.flatMap_nil, List.nil_append]
    | some parts =>
      obtain ⟨a, rest⟩ := parts
      have htext := append_of_cutAttribute h
      by_cases hrest : hasVars rest
      · rw [keptAttributes_of_some h hrest, List.flatMap_cons, List.append_assoc,
          ih _ (hlength ▸ length_lt_of_cutAttribute h) rest rfl, htext]
      · rw [keptAttributes_of_last h hrest, ← List.append_assoc, ← htext, ← a.text_shorten]
        cases a.shorten.1 <;> simp

theorem first_plus_oneAttribute_of_not_hasVars (h : ¬hasVars t) :
    (plus oneAttribute).first hasVars t = none := by
  rw [plus, first_seq_eq_findSome?, List.findSome?_eq_none_iff]
  intro m hm
  exact absurd (mem_ways_oneAttribute hm).1 h

theorem first_star_oneAttribute (t : Text) : (star oneAttribute).first hasVars t =
    ((plus oneAttribute).first hasVars t).or (if hasVars t then some ([], t) else none) :=
  first_star (fun _ hm ↦ (mem_ways_oneAttribute hm).2) hasVars

theorem isSome_first_star_oneAttribute (t : Text) :
    ((star oneAttribute).first hasVars t).isSome = hasVars t := by
  rw [first_star_oneAttribute]
  by_cases ht : hasVars t
  · simp [ht]
  · simp [ht, first_plus_oneAttribute_of_not_hasVars ht]

theorem first_plus_oneAttribute_of_none (h : cutAttribute t = none) :
    (plus oneAttribute).first hasVars t = none := by
  rw [plus, first_seq isSome_first_star_oneAttribute, first_oneAttribute, h]
  rfl

theorem first_plus_oneAttribute (t : Text) : (plus oneAttribute).first hasVars t =
    if (keptAttributes t).1 = [] then none else some ([], (keptAttributes t).2) := by
  induction hlength : t.length using Nat.strongRecOn generalizing t with
  | _ n ih =>
    cases h : cutAttribute t with
    | none =>
      rw [first_plus_oneAttribute_of_none h, keptAttributes_of_none h]
      rfl
    | some parts =>
      obtain ⟨a, rest⟩ := parts
      rw [plus, first_seq isSome_first_star_oneAttribute, first_oneAttribute, h, Option.bind_some]
      by_cases hrest : hasVars rest
      · have hkept := text_keptAttributes rest
        rw [keptAttributes_of_some h hrest, if_neg (List.cons_ne_nil _ _)]
        simp only [hrest, if_true, Option.bind_some]
        rw [first_star_oneAttribute, ih _ (hlength ▸ length_lt_of_cutAttribute h) rest rfl, if_pos hrest]
        by_cases hnil : (keptAttributes rest).1 = []
        · rw [hnil, List.flatMap_nil, List.nil_append] at hkept
          simp [hnil, hkept]
        · simp [hnil]
      -- This attribute is the last one, since an attribute cannot start where nothing is left.
      · obtain ⟨k, c, u, hshorten, hc, hcomma, -⟩ := (isWritten_of_cutAttribute h).exists_shorten
        rw [keptAttributes_of_last h hrest]
        simp only [hrest, Bool.false_eq_true, if_false]
        cases hleft : a.shorten.1 with
        | none => rfl
        | some b =>
          -- What the attribute gives back is no attribute.
          have hnone : cutAttribute (a.shorten.2 ++ rest) = none := by
            rw [hshorten, List.append_assoc]
            apply cutAttribute_of_head_ne
            · rintro ⟨⟩
              exact hc (by simp)
            · rintro ⟨⟩
              exact hcomma (by rw [hleft]; rfl) rfl
          have hvars : hasVars (a.shorten.2 ++ rest) := by
            rw [hshorten, List.append_assoc]
            refine hasVars_spaces_append (hasVars_cons_of_ne ?_ _) k
            rintro rfl
            exact hc (by simp)
          rw [Option.map_some, Option.bind_some, first_star_oneAttribute,
            first_plus_oneAttribute_of_none hnone, if_pos hvars]
          rfl

end

end Declaration

end FreeForm
