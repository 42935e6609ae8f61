import FreeForm.Proofs.Cutting

namespace FreeForm

namespace Marker

/-- The characters for which it matters what comes next. -/
def needsNext (c : Char) : Bool :=
  isSigil c || c = '}'

/-- The characters that are code wherever code is, whatever comes next. -/
def isPlain (c : Char) : Bool :=
  !(isSigil c || c = '!' || c = '\'' || c = '"')

variable {c : Char} (rest : Text)

theorem opener?_of_isSigil (hc : isSigil c = false) : opener? (window (c :: rest)) = none := by
  rcases rest with _ | ⟨d, rest⟩
  · rfl
  · simp only [window, List.take_succ_cons, List.take_zero]
    unfold opener?
    split
    · next hw =>
      obtain ⟨rfl, -⟩ := List.cons.inj hw
      simp [hc]
    · rfl

theorem endsCode_of_isSigil (hc : isSigil c = false) :
    endsCode (window (c :: rest)) = decide (c = '!') := by
  have hash : c ≠ '#' := by
    rintro rfl
    cases hc
  rcases rest with _ | ⟨d, rest⟩
  · by_cases he : c = '!' <;>
      simp [window, endsCode, startsDirective, startsPreprocessor, startsComment, he]
  · by_cases he : c = '!'
    · simp [window, endsCode, startsComment, he]
    · by_cases hd : d = ':' <;>
        simp [window, endsCode, startsDirective, startsPreprocessor, startsComment, he, hash, hc, hd]

theorem closes_of_ne (sigil : Char) (hc : c ≠ '}') : closes sigil (window (c :: rest)) = false := by
  rcases rest with _ | ⟨d, rest⟩ <;> simp [window, closes, hc]

theorem closes_of_isSigil (sigil : Char) {d : Char} (hd : isSigil d = false) :
    closes sigil (window (c :: d :: rest)) = false := by
  by_cases hc : c = '}'
  · simp [hc, window, closes, hasCloser, hd]
  · exact closes_of_ne _ _ hc

end Marker

namespace Region

open Marker

def Step.isShown (s : Step) : Bool :=
  !s.quoted && s.region ≠ .comment

/-- Where a scan stands after `t`, with `ahead` behind it: the region, and whether the second half of
a closer comes next. -/
def walk : Region → Bool → Text → Text → Region × Bool
  | r, closing, [], _ => (r, closing)
  | r, closing, c :: t, ahead =>
    let s := r.step closing c (t ++ ahead)
    walk s.region s.closing t ahead

/-- What a scan that hides quoted text and stops at comments sees of `t`. -/
def sights : Region → Bool → Text → Text → List Sight
  | _, _, [], _ => []
  | r, closing, c :: t, ahead =>
    let s := r.step closing c (t ++ ahead)
    (c, s.isShown) :: sights s.region s.closing t ahead

/-- What a scan makes of each character of `t`, whatever it hides. -/
def trace : Region → Bool → Text → Text → List Step
  | _, _, [], _ => []
  | r, closing, c :: t, ahead =>
    let s := r.step closing c (t ++ ahead)
    s :: trace s.region s.closing t ahead

variable (r : Region) (closing : Bool) (s t ahead : Text)

@[simp] theorem walk_nil : walk r closing [] ahead = (r, closing) := rfl

@[simp] theorem sights_nil : sights r closing [] ahead = [] := rfl

@[simp] theorem trace_nil : trace r closing [] ahead = [] := rfl

@[simp] theorem length_trace : (trace r closing t ahead).length = t.length := by
  induction t generalizing r closing with
  | nil => rfl
  | cons c t ih => simp [trace, ih]

theorem walk_eq_trace : walk r closing t ahead =
    ((trace r closing t ahead).getLast?.map fun s ↦ (s.region, s.closing)).getD (r, closing) := by
  induction t generalizing r closing with
  | nil => rfl
  | cons c t ih =>
    rw [walk, trace, ih, List.getLast?_cons]
    cases (trace _ _ t ahead).getLast? <;> rfl

theorem sights_eq_trace : sights r closing t ahead =
    t.zip ((trace r closing t ahead).map Step.isShown) := by
  induction t generalizing r closing with
  | nil => rfl
  | cons c t ih => rw [sights, trace, ih, List.map_cons, List.zip_cons_cons]

theorem trace_append : trace r closing (s ++ t) ahead =
    trace r closing s (t ++ ahead) ++
      trace (walk r closing s (t ++ ahead)).1 (walk r closing s (t ++ ahead)).2 t ahead := by
  induction s generalizing r closing with
  | nil => rfl
  | cons c s ih =>
    simp only [List.cons_append, trace, walk, List.append_assoc]
    rw [ih]

theorem walk_append : walk r closing (s ++ t) ahead =
    walk (walk r closing s (t ++ ahead)).1 (walk r closing s (t ++ ahead)).2 t ahead := by
  induction s generalizing r closing with
  | nil => rfl
  | cons c s ih =>
    simp only [List.cons_append, walk, List.append_assoc]
    exact ih _ _

theorem sights_append : sights r closing (s ++ t) ahead =
    sights r closing s (t ++ ahead) ++
      sights (walk r closing s (t ++ ahead)).1 (walk r closing s (t ++ ahead)).2 t ahead := by
  rw [sights_eq_trace, trace_append, List.map_append, List.zip_append (by simp), sights_eq_trace,
    sights_eq_trace]

@[simp] theorem map_fst_sights : (sights r closing t ahead).map Prod.fst = t := by
  rw [sights_eq_trace]
  exact List.map_fst_zip (by simp)

variable {r closing s t ahead}

/-- All that the character `c`, with `rest` behind it, can do. -/
inductive Effect (c : Char) (rest : Text) : Region → Bool → Step → Prop
  | closes (r : Region) : Effect c rest r true ⟨r, false, true⟩
  | opensSpan {sigil : Char} (h : opener? (window (c :: rest)) = some sigil) :
      Effect c rest .code false ⟨.span sigil, false, true⟩
  | opensComment (ho : opener? (window (c :: rest)) = none) (he : endsCode (window (c :: rest))) :
      Effect c rest .code false ⟨.comment, false, false⟩
  | opensLiteral (ho : opener? (window (c :: rest)) = none)
      (he : endsCode (window (c :: rest)) = false) (hc : c = '\'' ∨ c = '"') :
      Effect c rest .code false ⟨.literal c, false, true⟩
  | inCode (ho : opener? (window (c :: rest)) = none)
      (he : endsCode (window (c :: rest)) = false) (hc : ¬(c = '\'' ∨ c = '"')) :
      Effect c rest .code false ⟨.code, false, false⟩
  | endsSpan {sigil : Char} (h : Marker.closes sigil (window (c :: rest))) :
      Effect c rest (.span sigil) false ⟨.code, true, true⟩
  | inSpan {sigil : Char} (h : Marker.closes sigil (window (c :: rest)) = false) :
      Effect c rest (.span sigil) false ⟨.span sigil, false, true⟩
  | endsLiteral : Effect c rest (.literal c) false ⟨.code, false, true⟩
  | inLiteral {delimiter : Char} (h : c ≠ delimiter) :
      Effect c rest (.literal delimiter) false ⟨.literal delimiter, false, true⟩
  | inComment : Effect c rest .comment false ⟨.comment, false, false⟩

theorem effect_step (r : Region) (closing : Bool) (c : Char) (rest : Text) :
    Effect c rest r closing (r.step closing c rest) := by
  cases closing with
  | true => exact .closes r
  | false =>
    cases r with
    | code =>
      cases ho : opener? (window (c :: rest)) with
      | some sigil => simpa [step, ho] using Effect.opensSpan ho
      | none =>
        by_cases he : endsCode (window (c :: rest))
        · simpa [step, ho, he] using Effect.opensComment ho he
        · by_cases hc : c = '\'' ∨ c = '"'
          · simpa [step, ho, he, hc] using Effect.opensLiteral ho (by simpa using he) hc
          · simpa [step, ho, he, hc] using Effect.inCode ho (by simpa using he) hc
    | literal delimiter =>
      by_cases hc : c = delimiter
      · subst hc
        simpa [step] using Effect.endsLiteral
      · simpa [step, hc] using Effect.inLiteral hc
    | span sigil =>
      by_cases h : Marker.closes sigil (window (c :: rest))
      · simpa [step, h] using Effect.endsSpan h
      · simpa [step, h] using Effect.inSpan (by simpa using h)
    | comment => exact .inComment

theorem step_congr {c : Char} {rest rest' : Text} (h : rest.head? = rest'.head?) :
    r.step closing c rest = r.step closing c rest' := by
  have hw : window (c :: rest) = window (c :: rest') := by
    cases rest <;> cases rest' <;> simp_all [window]
  simp only [step, hw]

theorem step_of_needsNext {c : Char} (h : needsNext c = false) (rest rest' : Text) :
    r.step closing c rest = r.step closing c rest' := by
  have hc : isSigil c = false ∧ c ≠ '}' := by simpa [needsNext] using h
  cases closing with
  | true => rfl
  | false =>
    cases r with
    | code => simp [step, opener?_of_isSigil _ hc.1, endsCode_of_isSigil _ hc.1]
    | literal d => rfl
    | span sigil => simp [step, closes_of_ne _ _ hc.2]
    | comment => rfl

theorem step_of_isPlain {c : Char} (h : isPlain c) (rest : Text) :
    step .code false c rest = ⟨.code, false, false⟩ := by
  have hc : isSigil c = false ∧ c ≠ '!' ∧ c ≠ '\'' ∧ c ≠ '"' := by
    simpa [isPlain, and_assoc] using h
  simp [step, opener?_of_isSigil _ hc.1, endsCode_of_isSigil _ hc.1, hc]

theorem step_of_region_eq_comment {c : Char} {rest : Text} (hr : r ≠ .comment)
    (h : (r.step closing c rest).region = .comment) :
    r = .code ∧ closing = false ∧ opener? (window (c :: rest)) = none ∧
      endsCode (window (c :: rest)) ∧ r.step closing c rest = ⟨.comment, false, false⟩ := by
  have he := effect_step r closing c rest
  generalize r.step closing c rest = s at h he
  cases he with
  | opensComment ho he => exact ⟨rfl, rfl, ho, he, rfl⟩
  | closes => exact absurd h hr
  | inComment => exact absurd rfl hr
  | _ => cases h

theorem step_of_shown {c : Char} {rest : Text} (h : (r.step closing c rest).isShown) :
    r = .code ∧ closing = false ∧ r.step closing c rest = ⟨.code, false, false⟩ := by
  have he := effect_step r closing c rest
  generalize r.step closing c rest = s at h he
  cases he with
  | inCode => exact ⟨rfl, rfl, rfl⟩
  | _ => simp [Step.isShown] at h

theorem brace_of_step_closing {c : Char} {rest : Text} (h : (r.step closing c rest).closing) :
    c = '}' ∧ rest ≠ [] := by
  have he := effect_step r closing c rest
  generalize r.step closing c rest = s at h he
  cases he with
  | endsSpan hc =>
    constructor
    · by_cases hne : c = '}'
      · exact hne
      · simp [closes_of_ne _ _ hne] at hc
    · rintro rfl
      simp [window, Marker.closes] at hc
  | _ => cases h

theorem step_closing_of_isSigil {d : Char} (hd : isSigil d = false) (c : Char) (rest : Text) :
    (r.step closing c (d :: rest)).closing = false := by
  have he := effect_step r closing c (d :: rest)
  generalize r.step closing c (d :: rest) = s at he
  cases he with
  | endsSpan h => simp [closes_of_isSigil _ _ hd] at h
  | _ => rfl

theorem step_newline (r : Region) (closing : Bool) (c : Char) :
    (r.step closing c ['\n']).region = .comment ∨
      r.step closing c ['\n'] = r.step closing c [] := by
  by_cases h : needsNext c
  · cases closing with
    | true => exact Or.inr rfl
    | false =>
      obtain ((rfl | rfl) | rfl) | rfl : ((c = '#' ∨ c = '$') ∨ c = '@') ∨ c = '}' := by
        simpa [needsNext, isSigil] using h
      all_goals cases r with
        | code => first | exact Or.inl rfl | exact Or.inr rfl
        | span sigil =>
          right
          simp only [step, closes_of_isSigil [] sigil (d := '\n') rfl]
          rfl
        | _ => exact Or.inr rfl
  · exact Or.inr (step_of_needsNext (by simpa using h) _ _)

theorem region_step_comment (c : Char) (rest : Text) :
    (step .comment closing c rest).region = .comment := by
  cases closing <;> rfl

theorem walk_comment (closing : Bool) (t ahead : Text) :
    (walk .comment closing t ahead).1 = .comment := by
  induction t generalizing closing with
  | nil => rfl
  | cons c t ih =>
    rw [walk, region_step_comment]
    exact ih _

theorem sights_comment (t ahead : Text) :
    sights .comment false t ahead = t.map fun c ↦ (c, false) := by
  induction t with
  | nil => rfl
  | cons c t ih => simp [sights, step, Step.isShown, ih]

theorem walk_ne_comment (h : (walk r closing t ahead).1 ≠ .comment) : r ≠ .comment := by
  rintro rfl
  exact h (walk_comment closing t ahead)

theorem walk_sights_of_isPlain (h : ∀ c ∈ t, isPlain c) (ahead : Text) :
    walk .code false t ahead = (.code, false) ∧
      sights .code false t ahead = t.map fun c ↦ (c, true) := by
  induction t with
  | nil => exact ⟨rfl, rfl⟩
  | cons c t ih =>
    have hs := step_of_isPlain (h c (by simp)) (t ++ ahead)
    obtain ⟨hw, hsights⟩ := ih fun d hd ↦ h d (by simp [hd])
    simp [walk, sights, hs, hw, hsights, Step.isShown]

/-- The literals and spans that a scan can be in if it has started in code. -/
def IsProper : Region → Prop
  | literal delimiter => delimiter = '\'' ∨ delimiter = '"'
  | span sigil => isSigil sigil
  | code | comment => True

theorem isSigil_of_opener? {t : Text} {sigil : Char} (h : opener? t = some sigil) :
    isSigil sigil := by
  unfold opener? at h
  split at h
  · split at h
    · next hc =>
      obtain rfl := Option.some.inj h
      exact hc
    · cases h
  · cases h

theorem IsProper.walk (h : r.IsProper) (closing : Bool) (t ahead : Text) :
    (r.walk closing t ahead).1.IsProper := by
  induction t generalizing r closing with
  | nil => exact h
  | cons c t ih =>
    rw [Region.walk]
    apply ih
    have he := effect_step r closing c (t ++ ahead)
    generalize r.step closing c (t ++ ahead) = s at he
    cases he with
    | opensSpan ho => exact isSigil_of_opener? ho
    | opensLiteral _ _ hc => exact hc
    | closes => exact h
    | inSpan => exact h
    | inLiteral => exact h
    | _ => trivial

theorem carried_ne_comment (r : Region) : r.carried ≠ .comment := by
  cases r <;> simp [carried]

theorem IsProper.carried (h : r.IsProper) : r.carried.IsProper := by
  cases r with
  | comment => trivial
  | _ => exact h

theorem carried_of_isQuoted {r : Region} (h : r.isQuoted = false) : r.carried = .code := by
  cases r with
  | code | comment => rfl
  | literal | span => cases h

theorem carried_of_ne_comment {r : Region} (h : r ≠ .comment) : r.carried = r := by
  cases r with
  | comment => exact absurd rfl h
  | _ => rfl

/-- Of what comes behind a text only the first character matters. -/
theorem trace_congr {ahead' : Text} (h : ahead.head? = ahead'.head?) :
    trace r closing t ahead = trace r closing t ahead' := by
  induction t generalizing r closing with
  | nil => rfl
  | cons c t ih =>
    have hs : r.step closing c (t ++ ahead) = r.step closing c (t ++ ahead') := by
      apply step_congr
      cases t <;> simp [h]
    simp only [trace, hs]
    rw [ih]

theorem trace_of_getLast (h : ∀ c ∈ t.getLast?, needsNext c = false) (ahead ahead' : Text) :
    trace r closing t ahead = trace r closing t ahead' := by
  induction t generalizing r closing with
  | nil => rfl
  | cons c t ih =>
    have hs : r.step closing c (t ++ ahead) = r.step closing c (t ++ ahead') := by
      cases t with
      | nil => exact step_of_needsNext (h c rfl) _ _
      | cons d t => exact step_congr rfl
    have ht : ∀ d ∈ t.getLast?, needsNext d = false := by
      intro d hd
      rw [List.getLast?_cons, hd] at h
      exact h d rfl
    simp only [trace, hs]
    rw [ih ht]

theorem walk_sights_of_trace {ahead' : Text}
    (h : trace r closing t ahead = trace r closing t ahead') :
    walk r closing t ahead = walk r closing t ahead' ∧
      sights r closing t ahead = sights r closing t ahead' := by
  rw [walk_eq_trace, sights_eq_trace, h, ← walk_eq_trace, ← sights_eq_trace]
  exact ⟨rfl, rfl⟩

theorem walk_sights_congr {ahead' : Text} (h : ahead.head? = ahead'.head?) :
    walk r closing t ahead = walk r closing t ahead' ∧
      sights r closing t ahead = sights r closing t ahead' :=
  walk_sights_of_trace (trace_congr h)

theorem walk_sights_of_getLast (h : ∀ c ∈ t.getLast?, needsNext c = false) (ahead ahead' : Text) :
    walk r closing t ahead = walk r closing t ahead' ∧
      sights r closing t ahead = sights r closing t ahead' :=
  walk_sights_of_trace (trace_of_getLast h ahead ahead')

theorem walk_concat (t : Text) (c : Char) :
    walk r closing (t ++ [c]) ahead =
      ((step (walk r closing t (c :: ahead)).1 (walk r closing t (c :: ahead)).2 c ahead).region,
        (step (walk r closing t (c :: ahead)).1
          (walk r closing t (c :: ahead)).2 c ahead).closing) := by
  rw [walk_append]
  rfl

theorem walk_closing_nil (r : Region) (t : Text) : (walk r false t []).2 = false := by
  rcases List.eq_nil_or_concat t with rfl | ⟨t, c, rfl⟩
  · rfl
  · rw [List.concat_eq_append, walk_concat, ← Bool.not_eq_true]
    exact fun h ↦ (brace_of_step_closing h).2 rfl

theorem walk_closing_of_isSigil {c : Char} (hc : isSigil c = false) (r : Region) (t ahead : Text) :
    (walk r false t (c :: ahead)).2 = false := by
  rcases List.eq_nil_or_concat t with rfl | ⟨t, d, rfl⟩
  · rfl
  · rw [List.concat_eq_append, walk_concat]
    exact step_closing_of_isSigil hc d ahead

theorem walk_closing_of_getLast (ht : t ≠ []) (h : '}' ∉ t.getLast?) :
    (walk r closing t ahead).2 = false := by
  rcases List.eq_nil_or_concat t with rfl | ⟨t, c, rfl⟩
  · exact absurd rfl ht
  · rw [List.concat_eq_append] at h ⊢
    rw [walk_concat, ← Bool.not_eq_true]
    intro hc
    obtain rfl := (brace_of_step_closing hc).1
    exact h (by simp)

/-- A newline behind a text makes a comment of its last character, or no difference. -/
theorem walk_newline (r : Region) (closing : Bool) (t : Text) :
    (walk r closing t ['\n']).1 = .comment ∨ walk r closing t ['\n'] = walk r closing t [] := by
  rcases List.eq_nil_or_concat t with rfl | ⟨t, c, rfl⟩
  · exact Or.inr rfl
  · rw [List.concat_eq_append, walk_concat, walk_concat]
    have hhead : [c, '\n'].head? = [c].head? := rfl
    have ht : walk r closing t [c, '\n'] = walk r closing t [c] := (walk_sights_congr hhead).1
    rw [ht]
    rcases step_newline (walk r closing t [c]).1 (walk r closing t [c]).2 c with h | h
    · exact Or.inl h
    · exact Or.inr (by rw [h])

theorem step_of_isProper (hr : r.IsProper) {c : Char} (h : isPlain c) (hbrace : c ≠ '}')
    (rest : Text) : r.step false c rest = ⟨r, false, r.isQuoted⟩ := by
  have hc : isSigil c = false ∧ c ≠ '!' ∧ c ≠ '\'' ∧ c ≠ '"' := by
    simpa [isPlain, and_assoc] using h
  cases r with
  | code => exact step_of_isPlain h rest
  | literal delimiter => rcases hr with rfl | rfl <;> simp [step, hc, isQuoted]
  | span sigil => simp [step, closes_of_ne _ _ hbrace, isQuoted]
  | comment => rfl

theorem walk_of_isPlain (hr : r.IsProper) (h : ∀ c ∈ t, isPlain c ∧ c ≠ '}') (ahead : Text) :
    walk r false t ahead = (r, false) := by
  induction t with
  | nil => rfl
  | cons c t ih =>
    obtain ⟨hplain, hbrace⟩ := h c (by simp)
    rw [walk, step_of_isProper hr hplain hbrace]
    exact ih fun d hd ↦ h d (by simp [hd])

theorem sights_eq_append {front tail : List Sight} (h : sights r closing t ahead = front ++ tail) :
    ∃ t₁ t₂, t = t₁ ++ t₂ ∧ front = sights r closing t₁ (t₂ ++ ahead) ∧
      tail = sights (walk r closing t₁ (t₂ ++ ahead)).1 (walk r closing t₁ (t₂ ++ ahead)).2
        t₂ ahead := by
  have ht : t = front.map Prod.fst ++ tail.map Prod.fst := by
    rw [← List.map_append, ← h, map_fst_sights]
  refine ⟨_, _, ht, ?_⟩
  rw [ht, sights_append] at h
  refine List.append_inj h ?_ |>.imp Eq.symm Eq.symm
  rw [← List.length_map Prod.fst, map_fst_sights, List.length_map]

theorem cutsBehind_of_not_mem {t : Text} (h : ';' ∉ t) (r : Region) (closing : Bool)
    (ahead : Text) : ∀ a ∈ sights r closing t ahead, Statement.cutsBehind a = false := by
  intro a ha
  have hmem : a.1 ∈ t := by
    rw [← map_fst_sights r closing t ahead]
    exact List.mem_map_of_mem ha
  simp [Statement.cutsBehind, ne_of_mem_of_not_mem hmem h]

theorem fst_of_getLast_sights (r : Region) (closing : Bool) (t : Text) (c : Char) (ahead : Text) :
    ∀ a ∈ (sights r closing (t ++ [c]) ahead).getLast?, a.1 = c := by
  intro a ha
  rw [sights_append, sights, sights_nil, List.getLast?_concat] at ha
  rw [← Option.mem_some.mp ha]

theorem walk_of_shown (ht : t ≠ []) (h : ∀ a ∈ (sights r closing t ahead).getLast?, a.2 = true) :
    walk r closing t ahead = (.code, false) := by
  rcases List.eq_nil_or_concat t with rfl | ⟨s, c, rfl⟩
  · exact absurd rfl ht
  · rw [List.concat_eq_append] at h ⊢
    rw [sights_append] at h
    simp only [sights, List.getLast?_concat, Option.mem_some, forall_eq'] at h
    have hs := step_of_shown h
    rw [walk_append, walk, hs.2.2, walk_nil]

end Region

namespace Scanner

open Region

theorem surveyIn_eq_sights {s : Scanner} (hv : s.view = ⟨true, true⟩) (hr : s.region ≠ .comment)
    (t : Text) : (s.surveyIn t).1 = sights s.region s.closing t [] ∧
      (s.surveyIn t).2.region = (walk s.region s.closing t []).1 := by
  induction t generalizing s with
  | nil => exact ⟨rfl, rfl⟩
  | cons c t ih =>
    by_cases hc : (s.region.step s.closing c t).region = .comment
    · obtain ⟨-, -, -, -, hs⟩ := step_of_region_eq_comment hr hc
      simp [surveyIn, read, hv, sights, walk, hs, Step.isShown, sights_comment, walk_comment]
    · by_cases hq : (s.region.step s.closing c t).quoted
      · simp [surveyIn, read, hv, sights, walk, hc, hq, Step.isShown, ih]
      · simp [surveyIn, read, hv, sights, walk, hc, hq, Step.isShown, ih]

theorem region_drainIn (s : Scanner) (t : Text) :
    (s.drainIn t).2.region = (walk s.region s.closing t []).1 := by
  induction t generalizing s with
  | nil => rfl
  | cons c t ih =>
    rw [drainIn, read, walk, List.append_nil]
    by_cases hc : s.view.hidesComments && (s.region.step s.closing c t).region = .comment
    · obtain ⟨hv, hr⟩ : s.view.hidesComments = true ∧
          (s.region.step s.closing c t).region = .comment := by
        simpa using hc
      simp [hv, hr, walk_comment]
    · by_cases hq : s.view.hidesQuoted && (s.region.step s.closing c t).quoted
      · simp [hc, hq, ih]
      · simp [hc, hq, ih]

theorem region_drain_resume (t : Text) (view : View) (r : Region) :
    (resume t view r).drain.2.region = (walk r.carried false t []).1 :=
  region_drainIn (resume t view r) t

theorem region_drain_ofLine (t : Text) (view : View) :
    (ofLine t view).drain.2.region = (walk .code false t []).1 :=
  region_drain_resume t view .code

end Scanner

namespace Statement

open Region Marker

theorem ofText_eq (t : Text) (r : Region) :
    ofText t r =
      (ofSights (sights r.carried false t []), (walk r.carried false t []).1.carried) := by
  have hs := Scanner.surveyIn_eq_sights (s := Scanner.resume t ⟨true, true⟩ r) rfl
    r.carried_ne_comment t
  simp only [ofText, Scanner.carried]
  rw [hs.1, hs.2]
  rfl

/-- A text has a mark exactly if its scan ends in a comment. -/
theorem splitMark_eq_none_iff {r : Region} (hr : r ≠ .comment) (closing : Bool) (t : Text) :
    splitMark r closing t = none ↔ (walk r closing t []).1 ≠ .comment := by
  induction t generalizing r closing with
  | nil => simpa [splitMark] using hr
  | cons c t ih =>
    rw [splitMark, walk, List.append_nil]
    by_cases hc : (r.step closing c t).region = .comment
    · obtain ⟨rfl, rfl, -, he, hs⟩ := step_of_region_eq_comment hr hc
      simp [hs, he, walk_comment]
    · have hmark : ((!(r.step closing c t).quoted) && endsCode (window (c :: t))) = false := by
        have he := effect_step r closing c t
        generalize r.step closing c t = s at hc he
        cases he with
        | opensComment => exact absurd rfl hc
        | inComment => exact absurd rfl hr
        | inCode _ he => simp [he]
        | _ => rfl
      simp [hmark, ih hc]

theorem endsCode_of_splitMark {r : Region} {closing : Bool} {t before mark : Text}
    (h : splitMark r closing t = some (before, mark)) : endsCode (window mark) := by
  induction t generalizing r closing before with
  | nil => simp [splitMark] at h
  | cons c t ih =>
    rw [splitMark] at h
    split at h
    · next hm =>
      obtain ⟨rfl, rfl⟩ := by simpa using h
      simp_all
    · simp only [Option.map_eq_some_iff, Prod.mk.injEq, Prod.exists] at h
      obtain ⟨a, b, hab, -, rfl⟩ := h
      exact ih hab

theorem ofFinal_of_getLast_shown {sights : List Sight} (h : ∀ a ∈ sights.getLast?, a.2 = true) :
    ofFinal sights = ⟨sights.map Prod.fst, false, []⟩ := by
  have hf := @ofFinal_append sights [] h (by simp)
  simpa [splitMark] using hf

/-- The rescan of what is hidden at the end of a text that starts in code stands in code as well. -/
theorem exists_ofFinal_sights (t : Text) : ∃ t₁ t₂, t = t₁ ++ t₂ ∧
    (walk .code false t []).1 = (walk .code false t₂ []).1 ∧
      ofFinal (sights .code false t []) = match splitMark .code false t₂ with
        | some (before, mark) => ⟨t₁ ++ before, false, mark⟩
        | none => ⟨t, false, []⟩ := by
  obtain ⟨front, tail, hs, hfront, htail⟩ := exists_hidden_tail (sights .code false t [])
  obtain ⟨t₁, t₂, rfl, hf, ht⟩ := sights_eq_append hs
  have hw : walk .code false t₁ (t₂ ++ []) = (.code, false) := by
    by_cases h₁ : t₁ = []
    · rw [h₁, walk_nil]
    · exact walk_of_shown h₁ (hf ▸ hfront)
  refine ⟨t₁, t₂, rfl, by rw [walk_append, hw], ?_⟩
  have hfst₁ : front.map Prod.fst = t₁ := by rw [hf, map_fst_sights]
  have hfst₂ : tail.map Prod.fst = t₂ := by rw [ht, map_fst_sights]
  have hfinal := ofFinal_append hfront htail
  rw [List.map_append, hfst₁, hfst₂] at hfinal
  rw [hs]
  exact hfinal

theorem ofFinal_of_walk {t : Text} (h : (walk .code false t []).1 ≠ .comment) :
    ofFinal (sights .code false t []) = ⟨t, false, []⟩ := by
  obtain ⟨t₁, t₂, -, hw, hf⟩ := exists_ofFinal_sights t
  rw [hf, (splitMark_eq_none_iff (by simp) false t₂).mpr (hw ▸ h)]

theorem endsCode_comment_ofFinal {t : Text} (h : (walk .code false t []).1 = .comment) :
    endsCode (window (ofFinal (sights .code false t [])).comment) := by
  obtain ⟨t₁, t₂, -, hw, hf⟩ := exists_ofFinal_sights t
  have hm : splitMark .code false t₂ ≠ none := fun hn ↦
    (splitMark_eq_none_iff (by simp) false t₂).mp hn (hw ▸ h)
  obtain ⟨⟨before, mark⟩, hm⟩ := Option.ne_none_iff_exists'.mp hm
  rw [hf, hm]
  exact endsCode_of_splitMark hm

theorem comment_of_mem_ofSights {t : Text} (h : (walk .code false t []).1 ≠ .comment) :
    ∀ s ∈ ofSights (sights .code false t []), s.comment = [] := by
  generalize hs : sights .code false t [] = sights at *
  induction sights using cut_induction cutsBehind generalizing t with
  | whole sights hw =>
    rw [ofSights_of_forall hw, ← hs, ofFinal_of_walk h]
    simp
  | cut piece a rest hp ha ih =>
    obtain ⟨t₁, t₂, rfl, -, ht⟩ := sights_eq_append hs
    rcases t₂ with _ | ⟨c, t₂⟩
    · cases ht
    · simp only [sights, List.append_nil] at ht
      obtain ⟨rfl, hrest⟩ := List.cons.inj ht
      obtain ⟨hshown, rfl⟩ : _ ∧ c = ';' := by simpa [cutsBehind] using ha
      have hstep := (step_of_shown hshown).2.2
      rw [hstep] at hrest
      rw [walk_append, walk, List.append_nil, List.append_nil, hstep] at h
      rw [hshown, ofSights_append_cons hp]
      intro s hs
      rcases List.mem_cons.mp hs with rfl | hs
      · rfl
      · by_cases hr : rest = []
        · simp [hr] at hs
        · rw [List.isEmpty_eq_false_iff.mpr hr] at hs
          exact ih h hrest.symm s hs

end Statement

end FreeForm
