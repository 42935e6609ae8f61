import FreeForm.Source

namespace FreeForm

/-- A list either has no separator, or has a first one. -/
@[elab_as_elim]
theorem cut_induction {α : Type} (p : α → Bool) {motive : List α → Prop}
    (whole : ∀ l, (∀ a ∈ l, p a = false) → motive l)
    (cut : ∀ l a rest, (∀ b ∈ l, p b = false) → p a → motive rest → motive (l ++ a :: rest))
    (l : List α) : motive l := by
  -- The piece read so far is put in front, or the separator would not be reached by the recursion.
  have h : ∀ piece, (∀ a ∈ piece, p a = false) → motive (piece ++ l) := by
    induction l with
    | nil =>
      intro piece hp
      simpa using whole piece hp
    | cons a l ih =>
      intro piece hp
      by_cases ha : p a
      · exact cut piece a l hp ha (by simpa using ih [] (by simp))
      · have hpiece : ∀ b ∈ piece ++ [a], p b = false := by
          intro b hb
          rcases List.mem_append.mp hb with hb | hb
          · exact hp b hb
          · rw [List.mem_singleton.mp hb]
            simpa using ha
        simpa using ih (piece ++ [a]) hpiece
  simpa using h [] (by simp)

namespace PhysicalLine

section

variable {α : Type} [BEq α] {newline : α}

@[simp] theorem cutLines_nil : cutLines newline [] = [] := rfl

theorem cutLines_of_forall {l : List α} (h : ∀ a ∈ l, (a == newline) = false) (hl : l ≠ []) :
    cutLines newline l = [l] := by
  simp [cutLines, List.splitOnP_eq_singleton h, hl]

variable [LawfulBEq α]

theorem cutLines_append_cons {l : List α} (h : ∀ a ∈ l, (a == newline) = false) (rest : List α) :
    cutLines newline (l ++ newline :: rest) = (l ++ [newline]) :: cutLines newline rest := by
  have hp := List.splitOnP_append_cons_of_forall_mem h newline (by simp) rest
  have hr : rest.splitOnP (· == newline) ≠ [] := List.splitOnP_ne_nil _ rest
  obtain ⟨piece, pieces, hpieces⟩ := List.exists_cons_of_ne_nil hr
  simp [cutLines, hp, hpieces]

theorem flatten_cutLines (newline : α) (l : List α) : (cutLines newline l).flatten = l := by
  induction l using cut_induction (· == newline) with
  | whole l h =>
    by_cases hl : l = []
    · simp [hl]
    · simp [cutLines_of_forall h hl]
  | cut l a rest h ha ih =>
    obtain rfl := eq_of_beq ha
    simp [cutLines_append_cons h, ih]

theorem not_mem_dropLast_of_mem_cutLines {l line : List α} (h : line ∈ cutLines newline l) :
    newline ∉ line.dropLast := by
  induction l using cut_induction (· == newline) with
  | whole l hl =>
    rcases l with _ | ⟨b, l⟩
    · cases h
    · rw [cutLines_of_forall hl (List.cons_ne_nil _ _), List.mem_singleton] at h
      subst h
      intro hmem
      simpa using hl newline (List.dropLast_subset _ hmem)
  | cut l a rest hl ha ih =>
    obtain rfl := eq_of_beq ha
    rw [cutLines_append_cons hl] at h
    rcases List.mem_cons.mp h with rfl | h
    · rw [List.dropLast_concat]
      intro hmem
      simpa using hl a hmem
    · exact ih h

theorem cutLines_append {s : List α} (h : s = [] ∨ s.getLast? = some newline) (t : List α) :
    cutLines newline (s ++ t) = cutLines newline s ++ cutLines newline t := by
  induction s using cut_induction (· == newline) with
  | whole l hl =>
    rcases h with rfl | h
    · simp
    · simpa using hl newline (List.mem_of_getLast? h)
  | cut l a rest hl ha ih =>
    obtain rfl := eq_of_beq ha
    have hrest : rest = [] ∨ rest.getLast? = some a := by
      rcases List.eq_nil_or_concat rest with rfl | ⟨front, b, rfl⟩
      · exact Or.inl rfl
      · rw [List.concat_eq_append] at h ⊢
        have hlast := h.resolve_left (by simp)
        rw [show l ++ a :: (front ++ [b]) = (l ++ a :: front) ++ [b] by simp,
          List.getLast?_concat] at hlast
        exact Or.inr (by rw [List.getLast?_concat, hlast])
    rw [List.append_assoc, List.cons_append, cutLines_append_cons hl, cutLines_append_cons hl,
      ih hrest, List.cons_append]

end

/-- Characters can be replaced before or after a text is cut, if a newline is replaced by a text that
ends with the newline, and what is no newline by some text that has none. -/
theorem cutLines_flatMap_char {f : Char → Text}
    (hnewline : ∃ front, '\n' ∉ front ∧ f '\n' = front ++ ['\n'])
    (hother : ∀ c, c ≠ '\n' → f c ≠ [] ∧ '\n' ∉ f c) (t : Text) :
    cutLines '\n' (t.flatMap f) = (cutLines '\n' t).map (·.flatMap f) := by
  have hbody (l : Text) (hl : ∀ c ∈ l, (c == '\n') = false) :
      ∀ c ∈ l.flatMap f, (c == '\n') = false := by
    intro c hc
    obtain ⟨d, hd, hc⟩ := List.mem_flatMap.mp hc
    exact beq_eq_false_iff_ne.mpr
      (ne_of_mem_of_not_mem hc (hother d (beq_eq_false_iff_ne.mp (hl d hd))).2)
  induction t using cut_induction (· == '\n') with
  | whole t ht =>
    rcases t with _ | ⟨c, t⟩
    · rfl
    · have hne : (c :: t).flatMap f ≠ [] := by
        simp [(hother c (beq_eq_false_iff_ne.mp (ht c List.mem_cons_self))).1]
      rw [cutLines_of_forall (hbody _ ht) hne, cutLines_of_forall ht (List.cons_ne_nil c t)]
      rfl
  | cut l a rest hl ha ih =>
    obtain rfl := eq_of_beq ha
    obtain ⟨front, hfront, hf⟩ := hnewline
    have hlast : ∀ c ∈ l.flatMap f ++ front, (c == '\n') = false := by
      rw [List.forall_mem_append]
      exact ⟨hbody l hl, fun c hc ↦ beq_eq_false_iff_ne.mpr (ne_of_mem_of_not_mem hc hfront)⟩
    have hsplit : (l ++ '\n' :: rest).flatMap f =
        (l.flatMap f ++ front) ++ '\n' :: rest.flatMap f := by
      simp [hf]
    rw [hsplit, cutLines_append_cons hlast, ih, cutLines_append_cons hl]
    simp [hf]

theorem ofText_of_not_mem {l : Text} (hl : '\n' ∉ l) (hne : l ≠ []) : ofText l = [.text l] := by
  have h : ∀ c ∈ l, (c == '\n') = false := by
    intro c hc
    simpa using ne_of_mem_of_not_mem hc hl
  rw [ofText, cutLines_of_forall h hne]
  rfl

theorem ofText_append_cons {l : Text} (hl : '\n' ∉ l) (rest : Text) :
    ofText (l ++ '\n' :: rest) = .text (l ++ ['\n']) :: ofText rest := by
  have h : ∀ c ∈ l, (c == '\n') = false := by
    intro c hc
    simpa using ne_of_mem_of_not_mem hc hl
  rw [ofText, cutLines_append_cons h]
  rfl

theorem ofBytes_append {s : List UInt8} (h : s = [] ∨ s.getLast? = some 10) (t : List UInt8) :
    ofBytes (s ++ t) = ofBytes s ++ ofBytes t := by
  simp [ofBytes, cutLines_append h]

theorem eq_newline_of_mem_utf8EncodeChar {c : Char} (h : 10 ∈ String.utf8EncodeChar c) :
    c = '\n' := by
  simp only [String.utf8EncodeChar] at h
  split at h
  · next hc =>
    have hb := congrArg UInt8.toNat (List.mem_singleton.mp h)
    have hv : c.toNat = 10 := by
      simp at hb
      have := c.toNat_val
      omega
    exact Char.toNat_inj.mp hv
  · exfalso
    split at h
    · simp [← UInt8.toNat_inj] at h
      omega
    · split at h
      · simp [← UInt8.toNat_inj] at h
        omega
      · simp [← UInt8.toNat_inj] at h
        omega

theorem ne_newline_of_mem_encode {t : Text} (h : ∀ c ∈ t, (c == '\n') = false) :
    ∀ b ∈ Text.encode t, (b == 10) = false := by
  intro b hb
  obtain ⟨c, hc, hb⟩ := List.mem_flatMap.mp hb
  apply beq_eq_false_iff_ne.mpr
  rintro rfl
  simpa [eq_newline_of_mem_utf8EncodeChar hb] using h c hc

/-- Text is cut into the same physical lines before and after decoding. -/
theorem ofBytes_encode (t : Text) : ofBytes (Text.encode t) = ofText t := by
  induction t using cut_induction (· == '\n') with
  | whole l h =>
    by_cases hl : l = []
    · simp [hl, ofBytes, ofText, Text.encode]
    · have he : Text.encode l ≠ [] := by
        simpa [Text.encode, String.utf8EncodeChar_ne_nil] using List.exists_mem_of_ne_nil l hl
      simp [ofBytes, ofText, cutLines_of_forall h hl,
        cutLines_of_forall (ne_newline_of_mem_encode h) he, Text.decode?_encode]
  | cut l a rest h ha ih =>
    obtain rfl := eq_of_beq ha
    have he : Text.encode (l ++ '\n' :: rest) = Text.encode l ++ 10 :: Text.encode rest := by
      simp [Text.encode, String.utf8EncodeChar]
    have hd : Text.encode l ++ [10] = Text.encode (l ++ ['\n']) := by
      simp [Text.encode, String.utf8EncodeChar]
    simp only [ofBytes, ofText] at ih ⊢
    rw [he, cutLines_append_cons (ne_newline_of_mem_encode h), cutLines_append_cons h, hd,
      List.map_cons, List.map_cons, ih, Text.decode?_encode]

end PhysicalLine

namespace Statement

def cutsBehind (sight : Sight) : Bool :=
  sight.2 && sight.1 = ';'

theorem ofSights_eq (sights : List Sight) : ofSights sights =
    (sights.splitOnP cutsBehind).dropLast.map (fun piece ↦ ⟨piece.map Prod.fst, true, []⟩) ++
      if ((sights.splitOnP cutsBehind).getLast?.getD []).isEmpty &&
        !(sights.splitOnP cutsBehind).dropLast.isEmpty then []
      else [ofFinal ((sights.splitOnP cutsBehind).getLast?.getD [])] :=
  rfl

theorem ofSights_of_forall {sights : List Sight} (h : ∀ a ∈ sights, cutsBehind a = false) :
    ofSights sights = [ofFinal sights] := by
  simp [ofSights_eq, List.splitOnP_eq_singleton h]

theorem ofSights_append_cons {piece : List Sight} (h : ∀ a ∈ piece, cutsBehind a = false)
    (rest : List Sight) :
    ofSights (piece ++ (';', true) :: rest) =
      ⟨piece.map Prod.fst, true, []⟩ :: if rest.isEmpty then [] else ofSights rest := by
  have hp := List.splitOnP_append_cons_of_forall_mem h (';', true) rfl rest
  rw [ofSights_eq, hp]
  induction rest using cut_induction cutsBehind with
  | whole rest hrest =>
    have hr := List.splitOnP_eq_singleton hrest
    cases rest <;> simp [hr, ofSights_of_forall hrest]
  | cut first a rest hfirst ha _ =>
    have hr := List.splitOnP_append_cons_of_forall_mem hfirst a ha rest
    obtain ⟨next, pieces, hpieces⟩ := List.exists_cons_of_ne_nil
      (List.splitOnP_ne_nil cutsBehind rest)
    simp [ofSights_eq, hr, hpieces]

theorem ofSights_ne_nil (sights : List Sight) : ofSights sights ≠ [] := by
  induction sights using cut_induction cutsBehind with
  | whole sights h => simp [ofSights_of_forall h]
  | cut piece a rest h ha _ =>
    obtain ⟨c, shown⟩ := a
    obtain ⟨rfl, rfl⟩ : shown = true ∧ c = ';' := by simpa [cutsBehind] using ha
    simp [ofSights_append_cons h]

theorem cutsBehind_of_length {sights : List Sight} (h : (ofSights sights).length = 1)
    (hlast : ∀ a ∈ sights.getLast?, a.1 ≠ ';') : ∀ a ∈ sights, cutsBehind a = false := by
  induction sights using cut_induction cutsBehind with
  | whole sights hs => exact hs
  | cut piece a rest hp ha _ =>
    obtain ⟨c, shown⟩ := a
    obtain ⟨rfl, rfl⟩ : shown = true ∧ c = ';' := by simpa [cutsBehind] using ha
    have hrest : rest ≠ [] := by
      rintro rfl
      exact hlast (';', true) (by simp) rfl
    have hne := ofSights_ne_nil rest
    rw [ofSights_append_cons hp, List.isEmpty_eq_false_iff.mpr hrest] at h
    exact absurd (by simpa using h) hne

/-- What a scan has seen ends with a stretch, perhaps empty, of which nothing is shown. -/
theorem exists_hidden_tail (sights : List Sight) : ∃ front tail : List Sight,
    sights = front ++ tail ∧ (∀ a ∈ front.getLast?, a.2 = true) ∧ ∀ a ∈ tail, a.2 = false := by
  induction sights with
  | nil => exact ⟨[], [], rfl, by simp, by simp⟩
  | cons a sights ih =>
    obtain ⟨front, tail, rfl, hfront, htail⟩ := ih
    by_cases hf : front = []
    · subst hf
      by_cases ha : a.2 = true
      · exact ⟨[a], tail, rfl, by simpa using ha, htail⟩
      · refine ⟨[], a :: tail, rfl, by simp, fun b hb ↦ ?_⟩
        rcases List.mem_cons.mp hb with rfl | hb
        · simpa using ha
        · exact htail b hb
    · refine ⟨a :: front, tail, rfl, ?_, htail⟩
      rwa [List.getLast?_cons_of_ne_nil hf]

theorem ofFinal_append {front tail : List Sight} (hfront : ∀ a ∈ front.getLast?, a.2 = true)
    (htail : ∀ a ∈ tail, a.2 = false) :
    ofFinal (front ++ tail) = match splitMark .code false (tail.map Prod.fst) with
      | some (before, mark) => ⟨front.map Prod.fst ++ before, false, mark⟩
      | none => ⟨(front ++ tail).map Prod.fst, false, []⟩ := by
  have hpos : ∀ a ∈ tail.reverse, (!a.2) = true := by simpa using htail
  have hneg : front.reverse.takeWhile (fun a ↦ !a.2) = [] ∧
      front.reverse.dropWhile (fun a ↦ !a.2) = front.reverse := by
    rcases List.eq_nil_or_concat front with rfl | ⟨front, b, rfl⟩
    · simp
    · rw [List.concat_eq_append] at hfront ⊢
      have hb : b.2 = true := hfront b (by simp)
      simp [hb]
  have htake : ((front ++ tail).reverse.takeWhile fun a ↦ !a.2).reverse = tail := by
    rw [List.reverse_append, List.takeWhile_append_of_pos hpos, hneg.1]
    simp
  have hdrop : ((front ++ tail).reverse.dropWhile fun a ↦ !a.2).reverse = front := by
    rw [List.reverse_append, List.dropWhile_append_of_pos hpos, hneg.2, List.reverse_reverse]
  cases hm : splitMark .code false (tail.map Prod.fst) <;> simp only [ofFinal, htake, hdrop, hm]

theorem text_ofFinal (sights : List Sight) : (ofFinal sights).text = sights.map Prod.fst := by
  obtain ⟨front, tail, rfl, hfront, htail⟩ := exists_hidden_tail sights
  rw [ofFinal_append hfront htail]
  split
  · next before mark hm => simp [text, append_of_splitMark hm]
  · simp [text]

theorem flatMap_text_ofSights (sights : List Sight) :
    (ofSights sights).flatMap text = sights.map Prod.fst := by
  induction sights using cut_induction cutsBehind with
  | whole sights h => simp [ofSights_of_forall h, text_ofFinal]
  | cut piece a rest h ha ih =>
    obtain ⟨c, shown⟩ := a
    obtain ⟨rfl, rfl⟩ : shown = true ∧ c = ';' := by simpa [cutsBehind] using ha
    rw [ofSights_append_cons h]
    by_cases hrest : rest = []
    · simp [hrest, text]
    · simp [hrest, text, ih]

theorem ofText_ne_nil (t : Text) (r : Region) : (ofText t r).1 ≠ [] :=
  ofSights_ne_nil _

theorem flatMap_text_ofText (t : Text) (r : Region) : (ofText t r).1.flatMap text = t := by
  simp [ofText, flatMap_text_ofSights, Scanner.map_fst_surveyIn]

end Statement

namespace Segment

theorem flatMap_source_place (sentinel : Option Sentinel) (lineNumber : Nat) (newline : Bool)
    {statements : List Statement} (h : statements ≠ []) :
    (place sentinel lineNumber newline statements).flatMap source =
      Sentinel.textOf sentinel ++ statements.flatMap Statement.text := by
  obtain ⟨s, rest, rfl⟩ := List.exists_cons_of_ne_nil h
  simp [place, source, List.flatMap_map, Sentinel.textOf]

theorem place_none (lineNumber : Nat) (newline : Bool) (statements : List Statement) :
    place none lineNumber newline statements =
      statements.map fun s ↦ ⟨s, none, lineNumber, newline⟩ := by
  cases statements <;> rfl

theorem map_toStatement_place (sentinel : Option Sentinel) (lineNumber : Nat) (newline : Bool)
    (statements : List Statement) :
    (place sentinel lineNumber newline statements).map toStatement = statements := by
  cases statements <;> simp [place, Function.comp_def]

variable (line : Text) (lineNumber : Nat) (inDirective : Bool) (r : Region)

theorem ofLine_code : ofLine line lineNumber false r =
    (place (Sentinel.cut line).1 lineNumber (Text.endsWith '\n' line)
      (Statement.ofText (Sentinel.cut line).2 r).1, (Statement.ofText (Sentinel.cut line).2 r).2) :=
  rfl

theorem ofLine_directive : ofLine line lineNumber true r =
    (place (Sentinel.cut line).1 lineNumber (Text.endsWith '\n' line)
      [Statement.ofDirective (Sentinel.cut line).2], r) :=
  rfl

theorem ofLine_ne_nil : (ofLine line lineNumber inDirective r).1 ≠ [] := by
  cases inDirective with
  | true => simp [ofLine_directive, place]
  | false =>
    obtain ⟨s, rest, h⟩ :=
      List.exists_cons_of_ne_nil (Statement.ofText_ne_nil (Sentinel.cut line).2 r)
    simp [ofLine_code, h, place]

theorem flatMap_source_ofLine : (ofLine line lineNumber inDirective r).1.flatMap source = line := by
  have hcut := Sentinel.textOf_cut_append line
  cases inDirective with
  | true =>
    rw [ofLine_directive, flatMap_source_place _ _ _ (by simp)]
    simpa [Statement.ofDirective, Statement.text] using hcut
  | false =>
    rw [ofLine_code, flatMap_source_place _ _ _ (Statement.ofText_ne_nil _ _),
      Statement.flatMap_text_ofText, hcut]

end Segment

end FreeForm
