import FreeForm.Proofs.GivingBack

namespace FreeForm

namespace Declaration

open Regex Grammar

def cutColons : Text → Bool × Text
  | ':' :: ':' :: t => (true, t)
  | t => (false, t)

theorem cutColons_of_ne {t : Text} (h : ∀ u, t ≠ ':' :: ':' :: u) : cutColons t = (false, t) := by
  rw [cutColons.eq_def]
  split
  · exact absurd rfl (h _)
  · rfl

/-- The head and what is behind it. The head gives something back if nothing is left for the entities. -/
def makeRoom (p : Head × Text) : Option (Head × Text) :=
  if hasVars p.2 then some p else p.1.giveBack.map fun (h, piece) ↦ (h, piece ++ p.2)

namespace Head

def captured (h : Head) : List (Part × Text) :=
  (.typeSpec, h.typeSpec) :: (h.parameters.map (Part.parameters, ·)).toList ++
    (if h.attributes = [] then [] else [(.attributes, h.attributesText)]) ++
    if h.doubleColon then [(.colons, h.colons)] else []

def readColons (h : Head) (t : Text) : Head × Text :=
  ({ h with doubleColon := (cutColons t).1 }, (cutColons t).2)

def readAttributesGap (h : Head) (t : Text) : Head × Text :=
  readColons { h with attributesGap := (cutSpaces t).1 } (cutSpaces t).2

def readAttributes (h : Head) (t : Text) : Head × Text :=
  readAttributesGap { h with attributes := (cutAttributes t).1 } (cutAttributes t).2

def readParametersGap (h : Head) (t : Text) : Head × Text :=
  readAttributes { h with parametersGap := (cutSpaces t).1 } (cutSpaces t).2

def readParameters (h : Head) (t : Text) : Head × Text :=
  readParametersGap { h with parameters := (orAll t (cutGroup t)).1 } (orAll t (cutGroup t)).2

def readTypeGap (h : Head) (t : Text) : Head × Text :=
  readParameters { h with typeGap := (cutSpaces t).1 } (cutSpaces t).2

end Head

def wholeMatch (h : Head) (t : Text) : Match Part :=
  (h.captured ++ [(.vars, t.takeWhile (· ≠ '\n'))], (t.dropWhile (· ≠ '\n')).drop 1)

/-- `read` reads what `a` captures, as long as something is left for the entities. Of the parts of a head, `a`
captures those that `before` leaves out. -/
structure Reads (a : Regex Part) (before : Head → Head) (read : Head → Text → Head × Text) : Prop where
  isSome : ∀ t, (a.match? t).isSome = hasVars t
  captured : ∀ h t, hasVars t → (a.match? t).map (·.prepend (before h).captured) =
    (makeRoom (read h t)).map fun (h, t) ↦ wholeMatch h t

section

variable {a b : Regex Part} {before before' : Head → Head} {read read' : Head → Text → Head × Text}
  {h : Head} {t : Text}

/-- One piece more in front: what `a` matches first, with something left for the entities, is the part that
`read` reads and `read'` does not. -/
theorem Reads.seq (hb : Reads b before' read')
    (hnone : ∀ t, ¬hasVars t → a.first hasVars t = none)
    (hsome : ∀ h t, hasVars t → ∃ m h', a.first hasVars t = some m ∧
      (before h).captured ++ m.1 = (before' h').captured ∧ makeRoom (read h t) = makeRoom (read' h' m.2)) :
    Reads (.seq a b) before read := by
  have hfirst (t : Text) : (Regex.seq a b).match? t =
      (a.first hasVars t).bind fun m ↦ (b.match? m.2).map (·.prepend m.1) := by
    have hb' (t : Text) : (b.first (fun _ ↦ true) t).isSome = hasVars t := by
      rw [← match?_eq_first, hb.isSome]
    simp only [match?_eq_first, first_seq hb']
  constructor
  · intro t
    by_cases ht : hasVars t
    · obtain ⟨m, -, hm, -, -⟩ := hsome ⟨0, [], none, 0, none, 0, [], 0, false⟩ t ht
      rw [hfirst, hm, Option.bind_some, Option.isSome_map, hb.isSome, of_first_eq_some hm, ht]
    · rw [hfirst, hnone t ht, Option.bind_none]
      simpa using ht
  · intro h t ht
    obtain ⟨m, h', hm, hcaptured, hroom⟩ := hsome h t ht
    rw [hroom, ← hb.captured h' m.2 (of_first_eq_some hm), hfirst, hm, Option.bind_some, Option.map_map,
      ← hcaptured]
    congr 1
    funext m'
    simp [Match.prepend]

theorem makeRoom_of_hasVars (h : Head) (ht : hasVars t) : makeRoom (h, t) = some (h, t) :=
  if_pos ht

theorem makeRoom_of_not (h : Head) (ht : ¬hasVars t) :
    makeRoom (h, t) = h.giveBack.map fun (h, piece) ↦ (h, piece ++ t) :=
  if_neg ht

theorem makeRoom_of_giveBack {h' : Head} (piece : Text) (hback : h.giveBack = some (h', piece))
    (ht : ¬hasVars t) (hpiece : hasVars (piece ++ t)) : makeRoom (h, t) = makeRoom (h', piece ++ t) := by
  rw [makeRoom_of_not h ht, hback, makeRoom_of_hasVars h' hpiece]
  rfl

/-- Between two pieces there may be spaces. If nothing else is left for the entities, one of them is. -/
theorem Reads.blanks (hb : Reads b before' read') (setGap : Nat → Head → Head)
    (hbefore : ∀ n h, (before h).captured = (before' (setGap n h)).captured)
    (hread : ∀ h t, read h t = read' (setGap (cutSpaces t).1 h) (cutSpaces t).2)
    (hback : ∀ n h t, ¬hasVars t →
      makeRoom (read' (setGap (n + 1) h) t) = makeRoom (read' (setGap n h) (' ' :: t))) :
    Reads (.seq Grammar.blanks b) before read := by
  refine hb.seq ?_ ?_
  · intro t ht
    have hends := startsOutside_of_not_hasVars ht [' '] (by simp)
    have hspaces : cutSpaces t = (0, t) := cutSpaces_append 0 (hends ' ' (by simp))
    rw [first_blanks, hspaces, if_neg ht]
    rfl
  · intro h t ht
    have htext := spaces_cutSpaces_append t
    rw [first_blanks, hread]
    generalize cutSpaces t = cut at htext ⊢
    obtain ⟨n, rest⟩ := cut
    dsimp only at htext ⊢
    by_cases hrest : hasVars rest
    · exact ⟨_, setGap n h, if_pos hrest, by rw [List.append_nil, hbefore], rfl⟩
    · cases n with
      | zero =>
        obtain rfl : rest = t := htext
        exact absurd ht hrest
      | succ n =>
        have hlast : (spaces (n + 1)).getLast? = some ' ' := List.getLast?_replicate
        exact ⟨([], ' ' :: rest), setGap n h, by rw [if_neg hrest, hlast, Option.map_some],
          by rw [List.append_nil, hbefore], hback n h rest hrest⟩

end

namespace Head

section

variable {t : Text}

theorem readColons_of_startsOutside (h : Head) (ht : StartsOutside [':'] t) :
    h.readColons t = ({ h with doubleColon := false }, t) := by
  rw [readColons, cutColons_of_ne]
  rintro u rfl
  exact ht ':' (by simp) rfl

theorem readAttributesGap_append (h : Head) (n : Nat) (ht : StartsOutside [' ', ':'] t) :
    h.readAttributesGap (spaces n ++ t) = ({ h with attributesGap := n, doubleColon := false }, t) := by
  rw [readAttributesGap, cutSpaces_append n (ht ' ' (by simp)),
    readColons_of_startsOutside _ (ht.mono (by simp))]

theorem readAttributes_append (h : Head) (n : Nat) (ht : StartsOutside [' ', ':', ','] t) :
    h.readAttributes (spaces n ++ t) =
      ({ h with attributes := [], attributesGap := n, doubleColon := false }, t) := by
  have hnone : cutAttribute (spaces n ++ t) = none :=
    cutAttribute_of_head_ne (ht ' ' (by simp)) (ht ',' (by simp))
  rw [readAttributes, cutAttributes_of_none hnone, readAttributesGap_append _ n (ht.mono (by simp))]

theorem readParametersGap_append (h : Head) (n : Nat) (ht : StartsOutside [' ', ':', ','] t) :
    h.readParametersGap (spaces n ++ t) =
      ({ h with parametersGap := n, attributes := [], attributesGap := 0, doubleColon := false }, t) := by
  have hread := readAttributes_append { h with parametersGap := n } 0 ht
  rw [readParametersGap, cutSpaces_append n (ht ' ' (by simp))]
  exact hread

theorem readParameters_append (h : Head) (n : Nat) (ht : StartsOutside [' ', ':', ',', '('] t) :
    h.readParameters (spaces n ++ t) =
      ({ h with
        parameters := none
        parametersGap := n
        attributes := []
        attributesGap := 0
        doubleColon := false }, t) := by
  have hgroup : cutGroup (spaces n ++ t) = none := by
    cases n with
    | zero => exact cutGroup_of_head_ne (ht '(' (by simp))
    | succ n => rfl
  rw [readParameters, hgroup, orAll, readParametersGap_append _ n (ht.mono (by simp))]

theorem readTypeGap_append (h : Head) (n : Nat) (ht : StartsOutside [' ', ':', ',', '('] t) :
    h.readTypeGap (spaces n ++ t) =
      ({ h with
        typeGap := n
        parameters := none
        parametersGap := 0
        attributes := []
        attributesGap := 0
        doubleColon := false }, t) := by
  have hread := readParameters_append { h with typeGap := n } 0 ht
  rw [readTypeGap, cutSpaces_append n (ht ' ' (by simp))]
  exact hread

end

end Head

variable {t : Text}

theorem match?_entities (t : Text) : entities.match? t =
    if hasVars t then some ([(.vars, t.takeWhile (· ≠ '\n'))], (t.dropWhile (· ≠ '\n')).drop 1)
    else none := by
  have hempty (c : Char) (t : Text) (_ : decide (c ≠ '\n')) :
      (empty : Regex Part).first (fun _ ↦ true) (c :: t) = some ([], c :: t) :=
    first_empty _ _
  have hnewline (t : Text) : ((opt (char '\n')).first (fun _ ↦ true) t).isSome = true := by
    rw [first_opt]
    simp
  have hplus : (plus (one (· ≠ '\n')) : Regex Part).first (fun _ ↦ true) t =
      if hasVars t then some ([], t.dropWhile (· ≠ '\n')) else none := by
    rw [← first_seq_empty, first_seq_plus_of_some hempty, first_empty, hasVars]
    cases t.takeWhile (· ≠ '\n') <;> simp
  rw [match?_eq_first, entities, first_seq hnewline]
  by_cases ht : hasVars t
  · rw [if_pos ht] at hplus
    rw [if_pos ht, first_capture_of_append .vars List.takeWhile_append_dropWhile.symm hplus,
      Option.bind_some, first_opt]
    rcases hrest : t.dropWhile (· ≠ '\n') with _ | ⟨c, rest⟩
    · rfl
    · have hc := List.head?_dropWhile_not (decide <| · ≠ '\n') t
      rw [hrest] at hc
      obtain rfl : c = '\n' := by simpa using hc
      rfl
  · rw [if_neg ht] at hplus ⊢
    rw [first_capture_of_none .vars hplus, Option.bind_none]

theorem reads_entities : Reads entities (fun h ↦ h) (fun h t ↦ (h, t)) := by
  constructor
  · intro t
    rw [match?_entities]
    by_cases ht : hasVars t <;> simp [ht]
  · intro h t ht
    rw [match?_entities, if_pos ht, makeRoom_of_hasVars h ht]
    rfl

theorem first_colons_of_not (h : ∀ u, t ≠ ':' :: ':' :: u) :
    (seq (char ':') (char ':')).first hasVars t = none := by
  rw [first_seq_char]
  split
  · next hhead =>
    obtain ⟨u, rfl⟩ := List.head?_eq_some_iff.mp hhead
    rw [List.tail_cons, ← first_seq_empty, first_seq_char, if_neg]
    intro hhead
    obtain ⟨v, rfl⟩ := List.head?_eq_some_iff.mp hhead
    exact h v rfl
  · rfl

theorem first_colons (t : Text) : (seq (char ':') (char ':')).first hasVars (':' :: ':' :: t) =
    if hasVars t then some ([], t) else none := by
  rw [first_seq_char, List.head?_cons, if_pos rfl, List.tail_cons, ← first_seq_empty, first_seq_char,
    List.head?_cons, if_pos rfl, List.tail_cons, first_empty]

theorem reads_fromColons :
    Reads fromColons (fun h ↦ { h with doubleColon := false }) Head.readColons := by
  refine reads_entities.seq ?_ ?_
  · intro t ht
    have hcolons : ∀ u, t ≠ ':' :: ':' :: u := by
      rintro u rfl
      exact ht (hasVars_cons_of_ne (by decide) _)
    rw [first_opt_capture_of_none _ (first_colons_of_not hcolons), if_neg ht]
  · intro h t ht
    by_cases hcolons : ∃ u, t = ':' :: ':' :: u
    · obtain ⟨u, rfl⟩ := hcolons
      by_cases hu : hasVars u
      · have hfirst := (first_colons u).trans (if_pos hu)
        refine ⟨_, { h with doubleColon := true },
          first_opt_capture_of_append (u := [':', ':']) _ rfl hfirst, ?_, rfl⟩
        simp [Head.captured, Head.colons, Head.typeSpec, Head.attributesText]
      · have hfirst := (first_colons u).trans (if_neg hu)
        refine ⟨_, { h with doubleColon := false },
          by rw [first_opt_capture_of_none _ hfirst, if_pos ht], List.append_nil _, ?_⟩
        exact makeRoom_of_giveBack [':', ':'] rfl hu ht
    · have hcolons' : ∀ u, t ≠ ':' :: ':' :: u := fun u hu ↦ hcolons ⟨u, hu⟩
      have hread : h.readColons t = ({ h with doubleColon := false }, t) := by
        rw [Head.readColons, cutColons_of_ne hcolons']
      refine ⟨_, { h with doubleColon := false },
        by rw [first_opt_capture_of_none _ (first_colons_of_not hcolons'), if_pos ht], List.append_nil _, ?_⟩
      rw [hread]

theorem reads_fromAttributesGap :
    Reads fromAttributesGap (fun h ↦ { h with doubleColon := false }) Head.readAttributesGap := by
  refine reads_fromColons.blanks (fun n h ↦ { h with attributesGap := n }) (fun _ _ ↦ rfl)
    (fun _ _ ↦ rfl) ?_
  intro n h t ht
  rw [Head.readColons_of_startsOutside _ (startsOutside_of_not_hasVars ht _ (by simp)),
    Head.readColons_of_startsOutside _ (startsOutside_cons (by simp) t)]
  exact makeRoom_of_giveBack [' '] rfl ht (hasVars_cons_of_ne (by decide) t)

/-- If nothing is left for the entities, the last attribute gives something back, which is not read as a
part of the head again. -/
theorem makeRoom_readAttributes (h : Head) (t : Text) : makeRoom (h.readAttributes t) =
    makeRoom (Head.readAttributesGap { h with attributes := (keptAttributes t).1 } (keptAttributes t).2) := by
  have hwritten (a : Attribute) (ha : a ∈ (cutAttributes t).1) := isWritten_of_mem_cutAttributes ha
  rw [Head.readAttributes, keptAttributes]
  generalize cutAttributes t = cut at hwritten ⊢
  obtain ⟨attributes, rest⟩ := cut
  by_cases hrest : hasVars rest
  · simp only [hrest, if_true]
  · rcases List.eq_nil_or_concat attributes with rfl | ⟨front, a, hfront⟩
    · simp [hrest]
    · rw [List.concat_eq_append] at hfront
      subst hfront
      obtain ⟨n, c, u, hshorten, hc, -, hback⟩ := (hwritten a (by simp)).exists_shorten
      have hends : StartsOutside [' ', ':'] (c :: (u ++ rest)) :=
        startsOutside_cons (fun hmem ↦ hc (List.mem_append_left ['\n'] hmem)) _
      have hnewline : c ≠ '\n' := by
        rintro rfl
        exact hc (by simp)
      have hlast : (front ++ [a]).getLast? = some a := List.getLast?_concat
      simp only [hrest, Bool.false_eq_true, if_false, hlast, List.dropLast_concat, hshorten,
        List.append_assoc, List.cons_append]
      have hleft := Head.readAttributesGap_append { h with attributes := front ++ [a] } 0
        (startsOutside_of_not_hasVars hrest _ (by simp))
      change makeRoom (Head.readAttributesGap _ (spaces 0 ++ rest)) = _
      rw [hleft, Head.readAttributesGap_append _ n hends]
      exact makeRoom_of_giveBack _ (hback h front) hrest (hasVars_cons_of_ne hnewline _)

theorem reads_fromAttributes :
    Reads fromAttributes (fun h ↦ { h with attributes := [], doubleColon := false }) Head.readAttributes := by
  refine reads_fromAttributesGap.seq ?_ ?_
  · intro t ht
    rw [first_opt_capture_of_none _ (first_plus_oneAttribute_of_not_hasVars ht), if_neg ht]
  · intro h t ht
    have hkept := text_keptAttributes t
    have hfirst := first_plus_oneAttribute t
    have hroom := makeRoom_readAttributes h t
    by_cases hnil : (keptAttributes t).1 = []
    · rw [hnil, List.flatMap_nil, List.nil_append] at hkept
      rw [if_pos hnil] at hfirst
      rw [hnil, hkept] at hroom
      exact ⟨_, { h with attributes := [] }, by rw [first_opt_capture_of_none _ hfirst, if_pos ht],
        List.append_nil _, hroom⟩
    · rw [if_neg hnil] at hfirst
      refine ⟨_, { h with attributes := (keptAttributes t).1 },
        first_opt_capture_of_append _ hkept.symm hfirst, ?_, hroom⟩
      simp [Head.captured, Head.attributesText, Head.typeSpec, hnil]

theorem reads_fromParametersGap :
    Reads fromParametersGap (fun h ↦ { h with attributes := [], doubleColon := false })
      Head.readParametersGap := by
  refine reads_fromAttributes.blanks (fun n h ↦ { h with parametersGap := n }) (fun _ _ ↦ rfl)
    (fun _ _ ↦ rfl) ?_
  intro n h t ht
  have hends := startsOutside_of_not_hasVars ht [' ', ':', ','] (by simp)
  change makeRoom (Head.readAttributes _ (spaces 0 ++ t)) = makeRoom (Head.readAttributes _ (spaces 1 ++ t))
  rw [Head.readAttributes_append _ 0 hends, Head.readAttributes_append _ 1 hends, makeRoom_of_not _ ht,
    makeRoom_of_not _ ht]
  rfl

theorem reads_fromParameters :
    Reads fromParameters (fun h ↦ { h with parameters := none, attributes := [], doubleColon := false })
      Head.readParameters := by
  refine reads_fromParametersGap.seq ?_ ?_
  · intro t ht
    have hgroup : group.first hasVars t = none := by
      have hends := startsOutside_of_not_hasVars ht ['('] (by simp)
      rw [first_group, cutGroup_of_head_ne (hends '(' (by simp)), Option.bind_none]
    rw [first_opt_capture_of_none _ hgroup, if_neg ht]
  · intro h t ht
    cases hgroup : cutGroup t with
    | none =>
      have hread : h.readParameters t = Head.readParametersGap { h with parameters := none } t := by
        rw [Head.readParameters, hgroup]
        rfl
      refine ⟨_, { h with parameters := none },
        by rw [first_opt_capture_of_none _ (by rw [first_group, hgroup]; rfl), if_pos ht],
        List.append_nil _, ?_⟩
      rw [hread]
    | some parts =>
      obtain ⟨g, rest⟩ := parts
      have htext := append_of_cutGroup hgroup
      have hread : h.readParameters t = Head.readParametersGap { h with parameters := some g } rest := by
        rw [Head.readParameters, hgroup]
        rfl
      by_cases hrest : hasVars rest
      · have hfirst : group.first hasVars t = some ([], rest) := by
          rw [first_group, hgroup]
          exact if_pos hrest
        exact ⟨_, { h with parameters := some g }, first_opt_capture_of_append _ htext.symm hfirst,
          by simp [Head.captured, Head.typeSpec], by rw [hread]⟩
      · have hfirst : group.first hasVars t = none := by
          rw [first_group, hgroup]
          exact if_neg hrest
        refine ⟨_, { h with parameters := none }, by rw [first_opt_capture_of_none _ hfirst, if_pos ht],
          List.append_nil _, ?_⟩
        have hends : StartsOutside [' ', ':', ','] t :=
          htext ▸ ((isGroup_of_cutGroup hgroup).startsIn rest).startsOutside (by simp)
        rw [hread]
        change makeRoom (Head.readParametersGap _ (spaces 0 ++ rest)) =
          makeRoom (Head.readParametersGap _ (spaces 0 ++ t))
        rw [Head.readParametersGap_append _ 0 (startsOutside_of_not_hasVars hrest _ (by simp)),
          Head.readParametersGap_append _ 0 hends, ← htext]
        exact makeRoom_of_giveBack g rfl hrest (htext ▸ ht)

theorem reads_fromTypeGap :
    Reads fromTypeGap (fun h ↦ { h with parameters := none, attributes := [], doubleColon := false })
      Head.readTypeGap := by
  refine reads_fromParameters.blanks (fun n h ↦ { h with typeGap := n }) (fun _ _ ↦ rfl)
    (fun _ _ ↦ rfl) ?_
  intro n h t ht
  have hends := startsOutside_of_not_hasVars ht [' ', ':', ',', '('] (by simp)
  change makeRoom (Head.readParameters _ (spaces 0 ++ t)) = makeRoom (Head.readParameters _ (spaces 1 ++ t))
  rw [Head.readParameters_append _ 0 hends, Head.readParameters_append _ 1 hends, makeRoom_of_not _ ht,
    makeRoom_of_not _ ht]
  rfl

theorem makeRoom_readTypeGap (h : Head) (hasLength : Bool) (t : Text) :
    makeRoom (Head.readTypeGap { h with length := (orAll t (if hasLength then cutLength t else none)).1 }
        (orAll t (if hasLength then cutLength t else none)).2) =
      makeRoom (Head.readTypeGap { h with length := (keptLength hasLength t).1 }
        (keptLength hasLength t).2) := by
  rw [keptLength]
  cases hcut : (if hasLength then cutLength t else none) with
  | none => rfl
  | some parts =>
    obtain ⟨l, rest⟩ := parts
    by_cases hrest : hasVars rest
    · simp only [orAll, hrest, if_true]
    · have hdigits : ∀ c ∈ l.digits, c.isDigit := by
        cases hasLength with
        | true => exact Length.digits_of_cutLength hcut
        | false => cases hcut
      obtain ⟨n, c, u, hshorten, hc, hback⟩ := Length.exists_shorten hdigits
      have hends : StartsOutside [' ', ':', ',', '('] (c :: (u ++ rest)) :=
        startsOutside_cons (fun hmem ↦ hc (List.mem_append_left ['\n'] hmem)) _
      have hvars : hasVars (c :: (u ++ rest)) :=
        hasVars_cons_of_ne (fun hnewline ↦ hc (by simp [hnewline])) _
      simp only [orAll, hrest, Bool.false_eq_true, if_false, hshorten, List.append_assoc, List.cons_append]
      change makeRoom (Head.readTypeGap _ (spaces 0 ++ rest)) = _
      rw [Head.readTypeGap_append _ 0 (startsOutside_of_not_hasVars hrest _ (by simp)),
        Head.readTypeGap_append _ n hends]
      exact makeRoom_of_giveBack _ (hback { h with length := some l }) hrest hvars

theorem cutHead_eq (t : Text) : cutHead t =
    (cutKeyword (cutSpaces t).2).map fun (keyword, hasLength, rest) ↦
      Head.readTypeGap ⟨(cutSpaces t).1, keyword, (orAll rest (if hasLength then cutLength rest else none)).1,
        0, none, 0, [], 0, false⟩ (orAll rest (if hasLength then cutLength rest else none)).2 := by
  rw [cutHead]
  cases hcut : cutKeyword (cutSpaces t).2 with
  | none => simp [hcut]
  | some parts =>
    simp only [hcut, Option.bind_eq_bind, Option.bind_some, Option.map_some, Head.readTypeGap,
      Head.readParameters, Head.readParametersGap, Head.readAttributes, Head.readAttributesGap,
      Head.readColons]
    rfl

theorem ofText?_eq (t : Text) :
    ofText? t = ((cutHead t).bind makeRoom).map fun (h, rest) ↦ ofRest h rest := by
  rw [ofText?]
  cases hcut : cutHead t with
  | none => rfl
  | some parts =>
    obtain ⟨h, rest⟩ := parts
    simp only [Option.bind_eq_bind, Option.bind_some]
    by_cases hrest : hasVars rest
    · have hnil : (rest.takeWhile (· ≠ '\n')).isEmpty = false := by simpa [hasVars] using hrest
      rw [hnil, makeRoom_of_hasVars h hrest]
      rfl
    · have hnil : (rest.takeWhile (· ≠ '\n')).isEmpty = true := by simpa [hasVars] using hrest
      rw [hnil, makeRoom_of_not h hrest]
      cases h.giveBack <;> rfl

def captured (d : Declaration) : List (Part × Text) :=
  (.typeSpec, d.typeSpec) :: (d.parameters.map (Part.parameters, ·)).toList ++
    (d.attributes.map (Part.attributes, ·)).toList ++
    (if d.doubleColon then [(.colons, [':', ':'])] else []) ++ [(.vars, d.vars)]

theorem captured_ofRest (h : Head) (t : Text) : (ofRest h t).captured = (wholeMatch h t).1 := by
  rw [captured, wholeMatch, Head.captured]
  obtain ⟨indent, keyword, length, typeGap, parameters, parametersGap, attributes, attributesGap,
    doubleColon⟩ := h
  cases attributes <;> cases doubleColon <;>
    simp [ofRest, Declaration.typeSpec, Declaration.parameters, Declaration.attributes,
      Declaration.doubleColon, Head.colons]

theorem first_fromType (t : Text) : fromType.first (fun _ ↦ true) t =
    ((capture .typeSpec (oneOf (keywords.map type))).first hasVars t).bind fun m ↦
      (fromTypeGap.match? m.2).map (·.prepend m.1) := by
  have hgap (t : Text) : (fromTypeGap.first (fun _ ↦ true) t).isSome = hasVars t := by
    rw [← match?_eq_first, reads_fromTypeGap.isSome]
  simp only [match?_eq_first, fromType, first_seq hgap]

theorem first_fromType_of_none {t : Text} (h : cutKeyword t = none) :
    fromType.first (fun _ ↦ true) t = none := by
  have htypes := first_types hasVars t
  rw [h, Option.bind_none] at htypes
  rw [first_fromType, first_capture_of_none _ htypes, Option.bind_none]

theorem first_fromType_of_some {t keyword rest : Text} {hasLength : Bool}
    (h : cutKeyword t = some (keyword, hasLength, rest)) (indent : Nat) :
    fromType.first (fun _ ↦ true) t =
      (makeRoom (Head.readTypeGap ⟨indent, keyword, (keptLength hasLength rest).1, 0, none, 0, [], 0, false⟩
        (keptLength hasLength rest).2)).map fun (h, rest) ↦ wholeMatch h rest := by
  have htypes := first_types hasVars t
  simp only [h, Option.bind_some, first_typeEnd] at htypes
  rw [first_fromType]
  by_cases hvars : hasVars rest
  · rw [if_pos hvars] at htypes
    have htext : t = keyword ++ ((keptLength hasLength rest).1.map Length.text).getD [] ++
        (keptLength hasLength rest).2 := by
      rw [List.append_assoc, text_keptLength, append_of_cutKeyword h]
    rw [first_capture_of_append _ htext htypes, Option.bind_some]
    exact reads_fromTypeGap.captured
      ⟨indent, keyword, (keptLength hasLength rest).1, 0, none, 0, [], 0, false⟩
      (keptLength hasLength rest).2 (of_first_eq_some htypes)
  · -- Behind the keyword there is nothing to give back, and the keyword stays.
    rw [if_neg hvars] at htypes
    rw [first_capture_of_none _ htypes, keptLength_of_not_hasVars hasLength hvars]
    change _ = (makeRoom (Head.readTypeGap _ (spaces 0 ++ rest))).map _
    rw [Head.readTypeGap_append _ 0 (startsOutside_of_not_hasVars hvars _ (by simp)), makeRoom_of_not _ hvars]
    rfl

/-- A declaration has the parts that a search for the pattern captures, and what does not match is no
declaration. -/
theorem match?_declaration (t : Text) :
    (declaration.match? t).map Prod.fst = (ofText? t).map captured := by
  have hspace (t : Text) : fromType.first (fun _ ↦ true) (' ' :: t) = none := first_fromType_of_none rfl
  rw [match?_eq_first, declaration, first_seq_blanks hspace, ofText?_eq, cutHead_eq]
  cases hkeyword : cutKeyword (cutSpaces t).2 with
  | none =>
    rw [first_fromType_of_none hkeyword]
    rfl
  | some parts =>
    obtain ⟨keyword, hasLength, rest⟩ := parts
    have hroom := makeRoom_readTypeGap ⟨(cutSpaces t).1, keyword, none, 0, none, 0, [], 0, false⟩
      hasLength rest
    rw [first_fromType_of_some hkeyword (cutSpaces t).1]
    simp only [Option.map_some, Option.bind_some, hroom, Option.map_map]
    congr 1
    funext p
    exact (captured_ofRest p.1 p.2).symm

/-- A declaration with a double colon is taken apart into the parts that it is put together from, and a search
for the pattern captures them. -/
theorem parts_text_append {h : Head} (hw : h.IsWritten) (hcolons : h.doubleColon) {vars : Text}
    (hne : vars ≠ []) (hvars : '\n' ∉ vars) (newline : Bool) :
    ∃ d, ofText? (h.text ++ vars ++ if newline then ['\n'] else []) = some d ∧
      d.typeSpec = h.typeSpec ∧ d.parameters = h.parameters ∧
      d.attributes = (if h.attributes = [] then none else some h.attributesText) ∧
      d.doubleColon = true ∧ d.vars = vars ∧
      (declaration.match? (h.text ++ vars ++ if newline then ['\n'] else [])).map Prod.fst =
        some d.captured := by
  obtain ⟨d, hd, htypeSpec, hparameters, hattributes, hdoubleColon, hrest⟩ :=
    ofText?_text_append hw hcolons hne hvars newline
  have hmatch := match?_declaration (h.text ++ vars ++ if newline then ['\n'] else [])
  rw [hd, Option.map_some] at hmatch
  exact ⟨d, hd, htypeSpec, hparameters, hattributes, hdoubleColon, hrest, hmatch⟩

def characterHead : Head where
  indent := 2
  keyword := "Character".toList
  length := some ⟨1, 1, "80".toList⟩
  typeGap := 1
  parameters := some "(len=f(n(1)))".toList
  parametersGap := 1
  attributes := [⟨0, 1, "dimension".toList, some (1, "(3, *)".toList)⟩,
    ⟨2, 0, "intent".toList, some (0, "(in)".toList)⟩, ⟨0, 0, "save".toList, none⟩]
  attributesGap := 2
  doubleColon := true

def characterText : Text :=
  "  Character * 80 (len=f(n(1))) , dimension (3, *)  ,intent(in),save  :: s\n".toList

theorem parts_text_append_characterHead :
    characterHead.IsWritten ∧
      ∃ d, ofText? characterText = some d ∧
        d.typeSpec = "Character * 80".toList ∧ d.parameters = some "(len=f(n(1)))".toList ∧
        d.attributes = some ", dimension (3, *)  ,intent(in),save".toList ∧
        d.doubleColon = true ∧ d.vars = " s".toList ∧
        (declaration.match? characterText).map Prod.fst = some d.captured := by
  have hw : characterHead.IsWritten := by
    refine ⟨⟨true, by decide, fun _ ↦ rfl⟩, ?_, ?_, ?_, by decide⟩
    · rintro l ⟨⟩
      exact ⟨by decide, List.all_eq_true.mp (by decide)⟩
    · rintro g ⟨⟩
      decide
    · simp only [characterHead, List.forall_mem_cons]
      exact ⟨⟨by decide, List.all_eq_true.mp (by decide), by decide⟩,
        ⟨by decide, List.all_eq_true.mp (by decide), by decide⟩,
        ⟨by decide, List.all_eq_true.mp (by decide), by simp⟩, by simp⟩
  have hne : " s".toList ≠ [] := by decide
  have htext : characterHead.text ++ " s".toList ++ (if true then ['\n'] else []) = characterText := by
    decide
  obtain ⟨d, hd, hparts⟩ := parts_text_append hw rfl hne (by decide) true
  rw [htext] at hd hparts
  exact ⟨hw, d, hd, hparts⟩

end Declaration

end FreeForm
