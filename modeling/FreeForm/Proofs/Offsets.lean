import FreeForm.Proofs.Edges
import FreeForm.Proofs.Scanning

namespace FreeForm

namespace Text

theorem fromByte?_eq_some_iff {t u : Text} {n : Nat} :
    fromByte? t n = some u ↔ ∃ front, t = front ++ u ∧ n = byteLength front := by
  constructor
  · intro h
    induction t generalizing n with
    | nil =>
      cases n with
      | zero => exact ⟨[], Option.some.inj h, rfl⟩
      | succ n => cases h
    | cons c t ih =>
      cases n with
      | zero => exact ⟨[], Option.some.inj h, rfl⟩
      | succ n =>
        rw [fromByte?] at h
        split at h
        · next hc =>
          obtain ⟨front, rfl, hn⟩ := ih h
          refine ⟨c :: front, rfl, ?_⟩
          rw [byteLength_cons]
          omega
        · cases h
  · rintro ⟨front, rfl, rfl⟩
    exact fromByte?_append front u

/-- The text from one byte offset up to another; none if they are out of order, or if one of them lies
outside the text or inside a character. -/
def slice? (t : Text) (start stop : Nat) : Option Text :=
  if start ≤ stop then
    (fromByte? t start).bind fun tail ↦
      (fromByte? tail (stop - start)).map fun rest ↦ tail.take (tail.length - rest.length)
  else none

theorem slice?_eq_some_iff {t u : Text} {start stop : Nat} :
    slice? t start stop = some u ↔ ∃ front back, t = front ++ (u ++ back) ∧
      start = byteLength front ∧ stop = start + byteLength u := by
  rw [slice?]
  constructor
  · intro h
    split at h
    · next hle =>
      obtain ⟨tail, htail, h⟩ := Option.bind_eq_some_iff.mp h
      obtain ⟨back, hback, rfl⟩ := Option.map_eq_some_iff.mp h
      obtain ⟨front, rfl, hstart⟩ := fromByte?_eq_some_iff.mp htail
      obtain ⟨u, rfl, hstop⟩ := fromByte?_eq_some_iff.mp hback
      have htake : (u ++ back).take ((u ++ back).length - back.length) = u := by simp
      rw [htake]
      exact ⟨front, back, rfl, hstart, by omega⟩
    · cases h
  · rintro ⟨front, back, rfl, rfl, rfl⟩
    have hstop : byteLength front + byteLength u - byteLength front = byteLength u := by omega
    rw [if_pos (Nat.le_add_right _ _), fromByte?_append, Option.bind_some, hstop, fromByte?_append]
    simp

theorem slice?_append (front u back : Text) :
    slice? (front ++ (u ++ back)) (byteLength front) (byteLength (front ++ u)) = some u :=
  slice?_eq_some_iff.mpr ⟨front, back, rfl, rfl, byteLength_append front u⟩

end Text

namespace Scanner

def placesShown : Nat → List Sight → List Placed
  | _, [] => []
  | offset, (c, shown) :: sights =>
    if shown then (offset, c) :: placesShown (offset + c.utf8Size) sights
    else placesShown (offset + c.utf8Size) sights

theorem placesShown_of_hidden {sights : List Sight} (h : ∀ a ∈ sights, a.2 = false) (offset : Nat) :
    placesShown offset sights = [] := by
  induction sights generalizing offset with
  | nil => rfl
  | cons a sights ih =>
    obtain ⟨ha, hsights⟩ := List.forall_mem_cons.mp h
    rw [placesShown, ha, ih hsights]
    rfl

theorem placesShown_eq_nil_iff {sights : List Sight} (offset : Nat) :
    placesShown offset sights = [] ↔ ∀ a ∈ sights, a.2 = false := by
  refine ⟨fun h ↦ ?_, fun h ↦ placesShown_of_hidden h offset⟩
  induction sights generalizing offset with
  | nil => simp
  | cons a sights ih =>
    obtain ⟨c, shown⟩ := a
    cases shown with
    | true => cases h
    | false => exact List.forall_mem_cons.mpr ⟨rfl, ih _ h⟩

open Region

theorem drainIn_eq_placesShown {s : Scanner} (hv : s.view = ⟨true, true⟩) (hr : s.region ≠ .comment)
    (t : Text) :
    (s.drainIn t).1 = placesShown s.offset (sights s.region s.closing t []) := by
  induction t generalizing s with
  | nil => rfl
  | cons c t ih =>
    by_cases hc : (s.region.step s.closing c t).region = .comment
    · obtain ⟨-, -, -, -, hs⟩ := step_of_region_eq_comment hr hc
      have hhidden : ∀ a ∈ t.map fun d ↦ (d, false), a.2 = false := by simp
      simp [drainIn, read, hv, sights, hs, Step.isShown, sights_comment, placesShown,
        placesShown_of_hidden hhidden]
    · by_cases hq : (s.region.step s.closing c t).quoted
      · simp [drainIn, read, hv, sights, hc, hq, Step.isShown, ih, placesShown]
      · simp [drainIn, read, hv, sights, hc, hq, Step.isShown, ih, placesShown]

theorem drain_resume_eq_placesShown (t : Text) (r : Region) :
    (resume t ⟨true, true⟩ r).drain.1 = placesShown 0 (sights r.carried false t []) :=
  drainIn_eq_placesShown (s := resume t ⟨true, true⟩ r) rfl r.carried_ne_comment t

end Scanner

/-- A stretch of a line that waits in the queue: from byte `codeEnd` of its text on it can be a comment. -/
structure Cut where
  text : Text
  codeEnd : Nat
  separated : Bool

namespace Cut

open Text

def statement? (inDirective : Bool) (c : Cut) : Option Statement := do
  let codeEnd := min c.codeEnd (byteLength c.text)
  let trailing ← fromByte? c.text codeEnd
  let commented := !trailing.isEmpty && (inDirective || Marker.endsCode (Marker.window trailing))
  let code ← if commented then slice? c.text 0 codeEnd else some c.text
  some {
    code := if c.separated && endsWith ';' code then code.dropLast else code
    separated := c.separated
    comment := if commented then trailing else [] }

/-- The first of the places, counted from `offset` on, at which code ends. -/
def markAt? (line : Text) (offset : Nat) : List Placed → Option (Option Nat)
  | [] => some none
  | item :: items => do
    let ahead ← Marker.windowAt? line (offset + item.1)
    if Marker.endsCode ahead then some (some (offset + item.1)) else markAt? line offset items

/-- What is cut off behind the last place shown, which ends at `scanned`: the stretch from `start` on. -/
def finish? (line : Text) (start scanned : Nat) (first : Bool) : Option (List Cut) := do
  let mark? ← if scanned < byteLength line then do
      let tail ← fromByte? line scanned
      markAt? line scanned (Scanner.ofLine tail ⟨false, true⟩).drain.1
    else some none
  match mark? with
  | some mark =>
    let text ← slice? line start (byteLength line)
    if start ≤ mark then some [⟨text, mark - start, false⟩] else none
  | none =>
    if start < byteLength line || first then do
      let text ← slice? line start (byteLength line)
      some [⟨text, byteLength text, false⟩]
    else some []

/-- Cuts behind each semicolon among the places shown, and at the end. -/
def cutsFrom? (line : Text) : (start scanned : Nat) → (first : Bool) → List Placed →
    Option (List Cut)
  | start, scanned, first, [] => finish? line start scanned first
  | start, _, first, (offset, c) :: items =>
    let stop := offset + c.utf8Size
    if c = ';' || stop = byteLength line then do
      let text ← slice? line start stop
      let cuts ← cutsFrom? line stop stop false items
      some (⟨text, byteLength text, c = ';'⟩ :: cuts)
    else cutsFrom? line start stop first items

/-- The stretches of a line that starts in region `r`; none if one of the offsets is not to be used. -/
def ofText? (line : Text) (r : Region) : Option (List Cut) :=
  cutsFrom? line 0 0 true (Scanner.resume line ⟨true, true⟩ r).drain.1

section

variable (inDirective : Bool)

theorem statement?_of_length (text : Text) (separated : Bool) :
    statement? inDirective ⟨text, byteLength text, separated⟩ =
      some ⟨if separated && endsWith ';' text then text.dropLast else text, separated, []⟩ := by
  have htrailing : fromByte? text (byteLength text) = some [] := by
    simpa using fromByte?_append text []
  simp [statement?, htrailing]

theorem statement?_separated (code : Text) :
    statement? inDirective ⟨code ++ [';'], byteLength (code ++ [';']), true⟩ =
      some ⟨code, true, []⟩ := by
  rw [statement?_of_length, endsWith_concat, List.dropLast_concat]
  rfl

theorem statement?_mark (code : Text) {mark : Text} (h : Marker.endsCode (Marker.window mark)) :
    statement? inDirective ⟨code ++ mark, byteLength code, false⟩ = some ⟨code, false, mark⟩ := by
  have hne : mark ≠ [] := by
    rintro rfl
    cases h
  have hcode : slice? (code ++ mark) 0 (byteLength code) = some code := slice?_append [] code mark
  simp [statement?, fromByte?_append, hcode, h, hne]

end

theorem statement?_directive (t : Text) :
    statement? true ⟨t, 0, false⟩ = some (Statement.ofDirective t) := by
  have htrailing : fromByte? t 0 = some t := fromByte?_append [] t
  have hcode : slice? t 0 0 = some [] := slice?_append [] [] t
  by_cases hne : t = []
  · simp [statement?, hne, fromByte?, Statement.ofDirective]
  · simp [statement?, htrailing, hcode, hne, Statement.ofDirective]

theorem splitMark_cons (r : Region) (closing : Bool) (c : Char) (t : Text) :
    Statement.splitMark r closing (c :: t) =
      if !(r.step closing c t).quoted && Marker.endsCode (Marker.window (c :: t)) then
        some ([], c :: t)
      else (Statement.splitMark (r.step closing c t).region (r.step closing c t).closing t).map
        fun parts ↦ (c :: parts.1, parts.2) :=
  rfl

theorem markAt?_drainIn {s : Scanner} (hv : s.view = ⟨false, true⟩) (front mid t : Text)
    (ho : s.offset = byteLength mid) :
    markAt? (front ++ (mid ++ t)) (byteLength front) (s.drainIn t).1 =
      some ((Statement.splitMark s.region s.closing t).map fun parts ↦
        byteLength (front ++ (mid ++ parts.1))) := by
  induction t generalizing s mid with
  | nil => rfl
  | cons c t ih =>
    have hahead : Marker.windowAt? (front ++ (mid ++ c :: t)) (byteLength front + byteLength mid) =
        some (Marker.window (c :: t)) := by
      have h := fromByte?_append (front ++ mid) (c :: t)
      rw [byteLength_append, List.append_assoc] at h
      rw [Marker.windowAt?, h, Option.map_some]
    have hpass := @ih (s.pass c t) hv (mid ++ [c]) (by simp [Scanner.pass, ho])
    rw [List.append_assoc, List.singleton_append] at hpass
    have hhalts : s.view.halts (s.region.step s.closing c t) = false := by simp [View.halts, hv]
    have hhides : s.view.hides (s.region.step s.closing c t) =
        (s.region.step s.closing c t).quoted := by
      simp [View.hides, hv]
    have hmap : (Statement.splitMark (s.pass c t).region (s.pass c t).closing t).map
          (fun parts ↦ byteLength (front ++ (mid ++ [c] ++ parts.1))) =
        ((Statement.splitMark (s.pass c t).region (s.pass c t).closing t).map
          fun parts ↦ (c :: parts.1, parts.2)).map
            fun parts ↦ byteLength (front ++ (mid ++ parts.1)) := by
      simp [Function.comp_def]
    have hregion : (s.pass c t).region = (s.region.step s.closing c t).region := rfl
    have hclosing : (s.pass c t).closing = (s.region.step s.closing c t).closing := rfl
    rw [hmap, hregion, hclosing] at hpass
    rw [Scanner.drainIn, Scanner.read_eq, hhalts, hhides, splitMark_cons]
    by_cases hq : (s.region.step s.closing c t).quoted
    · simpa [hq] using hpass
    · simp only [hq, Bool.not_false, Bool.true_and, Bool.false_eq_true, if_false]
      rw [markAt?, ho, hahead]
      by_cases he : Marker.endsCode (Marker.window (c :: t))
      · simp [he]
      · simpa [he] using hpass

theorem markAt?_ofLine (front hidden : Text) :
    markAt? (front ++ hidden) (byteLength front)
        (Scanner.ofLine hidden ⟨false, true⟩).drain.1 =
      some ((Statement.splitMark .code false hidden).map fun parts ↦
        byteLength (front ++ parts.1)) :=
  markAt?_drainIn (s := Scanner.ofLine hidden ⟨false, true⟩) rfl front [] hidden rfl

def scanEnd : (scanned offset : Nat) → List Sight → Nat
  | scanned, _, [] => scanned
  | scanned, offset, (c, shown) :: sights =>
    let stop := offset + c.utf8Size
    scanEnd (if shown then stop else scanned) stop sights

theorem scanEnd_concat (scanned offset : Nat) (sights : List Sight) (c : Char) :
    scanEnd scanned offset (sights ++ [(c, true)]) =
      offset + byteLength (sights.map Prod.fst ++ [c]) := by
  induction sights generalizing scanned offset with
  | nil => rfl
  | cons a sights ih =>
    rw [List.cons_append, scanEnd, ih, List.map_cons, List.cons_append, byteLength_cons,
      Nat.add_assoc]

theorem scanEnd_of_getLast {sights : List Sight} (h : ∀ a ∈ sights.getLast?, a.2 = true)
    (offset : Nat) : scanEnd offset offset sights = offset + byteLength (sights.map Prod.fst) := by
  rcases List.eq_nil_or_concat sights with rfl | ⟨sights, ⟨c, shown⟩, rfl⟩
  · rfl
  · rw [List.concat_eq_append] at h ⊢
    obtain rfl : shown = true := h (c, shown) (by simp)
    rw [scanEnd_concat, List.map_append]
    rfl

theorem cutsFrom?_append {line : Text} (start scanned offset : Nat) (first : Bool)
    {piece : List Sight} (h : ∀ a ∈ piece, Statement.cutsBehind a = false) (sights : List Sight)
    (hlt : offset + byteLength (piece.map Prod.fst) < byteLength line) :
    cutsFrom? line start scanned first (Scanner.placesShown offset (piece ++ sights)) =
      cutsFrom? line start (scanEnd scanned offset piece) first
        (Scanner.placesShown (offset + byteLength (piece.map Prod.fst)) sights) := by
  induction piece generalizing scanned offset with
  | nil => rfl
  | cons a piece ih =>
    obtain ⟨c, shown⟩ := a
    obtain ⟨ha, hpiece⟩ := List.forall_mem_cons.mp h
    rw [List.map_cons, byteLength_cons, ← Nat.add_assoc] at hlt ⊢
    dsimp only at hlt ⊢
    have hih := fun scanned ↦ ih scanned (offset + c.utf8Size) hpiece hlt
    cases shown with
    | false => exact hih scanned
    | true =>
      have hc : c ≠ ';' := by simpa [Statement.cutsBehind] using ha
      have hstop : offset + c.utf8Size ≠ byteLength line := by omega
      rw [List.cons_append, Scanner.placesShown, if_pos rfl, cutsFrom?]
      simp only [hc, hstop, decide_false, Bool.or_self, Bool.false_eq_true, if_false]
      exact hih _

theorem byteLength_pos {t : Text} (h : t ≠ []) : 0 < byteLength t := by
  obtain ⟨c, t, rfl⟩ := List.exists_cons_of_ne_nil h
  have hc := c.utf8Size_pos
  rw [byteLength_cons]
  omega

theorem finish?_end (line : Text) : finish? line (byteLength line) (byteLength line) false = some [] := by
  simp [finish?]

theorem finish?_hidden (front visible : Text) {hidden : Text} (hne : hidden ≠ []) (first : Bool) :
    finish? (front ++ (visible ++ hidden)) (byteLength front) (byteLength (front ++ visible)) first =
      some [⟨visible ++ hidden, match Statement.splitMark .code false hidden with
        | some (before, _) => byteLength (visible ++ before)
        | none => byteLength (visible ++ hidden), false⟩] := by
  have hpos := byteLength_pos hne
  have hlt : byteLength (front ++ visible) < byteLength (front ++ (visible ++ hidden)) := by
    simp only [byteLength_append]
    omega
  have htail : fromByte? (front ++ (visible ++ hidden)) (byteLength (front ++ visible)) =
      some hidden := by
    rw [← List.append_assoc]
    exact fromByte?_append _ _
  have htext : slice? (front ++ (visible ++ hidden)) (byteLength front)
      (byteLength (front ++ (visible ++ hidden))) = some (visible ++ hidden) := by
    simpa using slice?_append front (visible ++ hidden) []
  have hmark := markAt?_ofLine (front ++ visible) hidden
  rw [List.append_assoc] at hmark
  rw [finish?, if_pos hlt, htail]
  simp only [Option.bind_eq_bind, Option.bind_some, hmark, htext]
  cases Statement.splitMark .code false hidden with
  | none =>
    have hstart : byteLength front < byteLength (front ++ (visible ++ hidden)) := by
      simp only [byteLength_append]
      omega
    simp only [Option.map_none, hstart, decide_true, Bool.true_or, if_true]
  | some parts =>
    obtain ⟨before, mark⟩ := parts
    have hle : byteLength front ≤ byteLength (front ++ visible ++ before) := by
      simp only [byteLength_append]
      omega
    have hsub : byteLength (front ++ visible ++ before) - byteLength front =
        byteLength (visible ++ before) := by
      simp only [byteLength_append]
      omega
    simp only [Option.map_some, if_pos hle, hsub]

def statementsFrom? (inDirective first : Bool) (front : Text) (sights : List Sight) :
    Option (List Statement) :=
  (cutsFrom? (front ++ sights.map Prod.fst) (byteLength front) (byteLength front) first
    (Scanner.placesShown (byteLength front) sights)).bind (·.mapM (statement? inDirective))

theorem statementsFrom?_nil (inDirective first : Bool) (front : Text) :
    statementsFrom? inDirective first front [] =
      some (if first then [⟨[], false, []⟩] else []) := by
  cases first with
  | false => simp [statementsFrom?, Scanner.placesShown, cutsFrom?, finish?_end]
  | true =>
    have htext : slice? front (byteLength front) (byteLength front) = some [] := by
      simpa using slice?_append front [] []
    have hstatement := statement?_of_length inDirective [] false
    simp only [statementsFrom?, List.map_nil, List.append_nil, Scanner.placesShown, cutsFrom?,
      finish?, Nat.lt_irrefl, if_false, Option.bind_eq_bind, Option.bind_some, decide_false,
      Bool.or_true, if_true, htext, List.mapM_cons, List.mapM_nil, hstatement]
    rfl

theorem statementsFrom?_shown (inDirective first : Bool) (front : Text) {sights : List Sight}
    {c : Char} (h : ∀ a ∈ sights, Statement.cutsBehind a = false) (hc : c ≠ ';') :
    statementsFrom? inDirective first front (sights ++ [(c, true)]) =
      some [⟨sights.map Prod.fst ++ [c], false, []⟩] := by
  have hpos := c.utf8Size_pos
  have hstop : byteLength front + byteLength (sights.map Prod.fst) + c.utf8Size =
      byteLength (front ++ (sights.map Prod.fst ++ [c])) := by
    simp only [byteLength_append, byteLength_cons, byteLength_nil]
    omega
  have htext := slice?_append front (sights.map Prod.fst ++ [c]) []
  have hstatement := statement?_of_length inDirective (sights.map Prod.fst ++ [c]) false
  have hmap : (sights ++ [(c, true)]).map Prod.fst = sights.map Prod.fst ++ [c] := by simp
  rw [List.append_nil] at htext
  rw [statementsFrom?, hmap, cutsFrom?_append _ _ _ _ h _ (by omega)]
  simp only [Scanner.placesShown, if_true, cutsFrom?, hc, hstop, decide_false, decide_true,
    Bool.or_true, htext, finish?_end, Option.bind_eq_bind, Option.bind_some]
  rw [List.mapM_cons, List.mapM_nil, hstatement]
  rfl

theorem statementsFrom?_hidden (inDirective first : Bool) (front : Text) {shown tail : List Sight}
    (h : ∀ a ∈ shown, Statement.cutsBehind a = false) (hshown : ∀ a ∈ shown.getLast?, a.2 = true)
    (htail : ∀ a ∈ tail, a.2 = false) (hne : tail ≠ []) :
    statementsFrom? inDirective first front (shown ++ tail) =
      some [Statement.ofFinal (shown ++ tail)] := by
  have hhidden : tail.map Prod.fst ≠ [] := by simpa using hne
  have hpos := byteLength_pos hhidden
  have hlt : byteLength front + byteLength (shown.map Prod.fst) <
      byteLength (front ++ (shown.map Prod.fst ++ tail.map Prod.fst)) := by
    simp only [byteLength_append]
    omega
  rw [statementsFrom?, List.map_append, cutsFrom?_append _ _ _ _ h _ hlt, scanEnd_of_getLast hshown,
    Scanner.placesShown_of_hidden htail, cutsFrom?, ← byteLength_append, finish?_hidden _ _ hhidden,
    Statement.ofFinal_append hshown htail, Option.bind_some, List.mapM_cons, List.mapM_nil]
  cases hm : Statement.splitMark .code false (tail.map Prod.fst) with
  | none =>
    rw [statement?_of_length, List.map_append]
    rfl
  | some parts =>
    obtain ⟨before, mark⟩ := parts
    have htext := Statement.append_of_splitMark hm
    have hstatement := statement?_mark inDirective (shown.map Prod.fst ++ before)
      (Statement.endsCode_of_splitMark hm)
    rw [List.append_assoc, htext] at hstatement
    rw [hstatement]
    rfl

theorem statementsFrom?_final (inDirective first : Bool) (front : Text) {sights : List Sight}
    (h : ∀ a ∈ sights, Statement.cutsBehind a = false) :
    statementsFrom? inDirective first front sights =
      some (if sights.isEmpty && !first then [] else [Statement.ofFinal sights]) := by
  obtain ⟨shown, tail, rfl, hshown, htail⟩ := Statement.exists_hidden_tail sights
  -- With nothing hidden at the end, the last place shown ends the line, and nothing is looked for.
  by_cases hne : tail = []
  · subst hne
    rw [List.append_nil] at h ⊢
    rw [Statement.ofFinal_of_getLast_shown hshown]
    rcases List.eq_nil_or_concat shown with rfl | ⟨shown, ⟨c, b⟩, rfl⟩
    · rw [statementsFrom?_nil]
      cases first <;> rfl
    · rw [List.concat_eq_append] at h hshown ⊢
      obtain rfl : b = true := hshown (c, b) (by simp)
      obtain ⟨hcut, hlast⟩ := List.forall_mem_append.mp h
      have hc : c ≠ ';' := by simpa [Statement.cutsBehind] using hlast
      rw [statementsFrom?_shown inDirective first front hcut hc]
      simp
  · obtain ⟨hcut, -⟩ := List.forall_mem_append.mp h
    rw [statementsFrom?_hidden inDirective first front hcut hshown htail hne]
    simp [hne]

theorem statementsFrom?_eq (inDirective first : Bool) (front : Text) (sights : List Sight) :
    statementsFrom? inDirective first front sights =
      some (if sights.isEmpty && !first then [] else Statement.ofSights sights) := by
  induction sights using cut_induction Statement.cutsBehind generalizing front first with
  | whole sights h =>
    rw [Statement.ofSights_of_forall h]
    exact statementsFrom?_final inDirective first front h
  | cut piece a rest h ha ih =>
    obtain ⟨c, shown⟩ := a
    obtain ⟨rfl, rfl⟩ : shown = true ∧ c = ';' := by simpa [Statement.cutsBehind] using ha
    have hsemicolon : (';' : Char).utf8Size = 1 := rfl
    have hstop : byteLength front + byteLength (piece.map Prod.fst) + 1 =
        byteLength (front ++ (piece.map Prod.fst ++ [';'])) := by
      simp only [byteLength_append, byteLength_cons, byteLength_nil, hsemicolon]
      omega
    have htext := slice?_append front (piece.map Prod.fst ++ [';']) (rest.map Prod.fst)
    have hstatement := statement?_separated inDirective (piece.map Prod.fst)
    have hrest := ih false (front ++ (piece.map Prod.fst ++ [';']))
    simp only [statementsFrom?, List.append_assoc, List.singleton_append] at htext hrest
    have hlt : byteLength front + byteLength (piece.map Prod.fst) <
        byteLength (front ++ (piece.map Prod.fst ++ ';' :: rest.map Prod.fst)) := by
      simp only [byteLength_append, byteLength_cons, hsemicolon]
      omega
    rw [statementsFrom?, List.map_append, List.map_cons, cutsFrom?_append _ _ _ _ h _ hlt,
      Statement.ofSights_append_cons h]
    simp only [Scanner.placesShown, if_true, cutsFrom?, decide_true, Bool.true_or, hsemicolon, hstop,
      htext, Option.bind_eq_bind, Option.bind_some]
    obtain ⟨cuts, hcuts, hstatements⟩ := Option.bind_eq_some_iff.mp hrest
    rw [hcuts, Option.bind_some, Option.bind_some, List.mapM_cons, hstatement, hstatements]
    simp

end Cut

namespace Statement

theorem mapM_ofText? (t : Text) (r : Region) (inDirective : Bool) :
    (Cut.ofText? t r).bind (·.mapM (Cut.statement? inDirective)) = some (ofText t r).1 := by
  have hplaces := Scanner.drain_resume_eq_placesShown t r
  have h := Cut.statementsFrom?_eq inDirective true [] (Region.sights r.carried false t [])
  rw [Cut.statementsFrom?, Region.map_fst_sights] at h
  rw [Cut.ofText?, hplaces, ofText_eq]
  simpa using h

end Statement

namespace Segment

/-- The segments of a physical line, all of them cut out by byte offsets. What waits is told apart when
it is its turn; `later` tells whether a directive goes on then. -/
def cutOut? (line : Text) (lineNumber : Nat) (inDirective later : Bool) (r : Region) :
    Option (List Segment) := do
  let sentinel := (Sentinel.cut line).1
  let rest ← Text.fromByte? line (Text.byteLength (Sentinel.textOf sentinel))
  let cuts ← if inDirective then some [⟨rest, 0, false⟩] else Cut.ofText? rest r
  let statements ← cuts.mapM (Cut.statement? (inDirective || later))
  some (place sentinel lineNumber (Text.endsWith '\n' line) statements)

theorem cutOut?_eq_ofLine (line : Text) (lineNumber : Nat) (inDirective later : Bool) (r : Region) :
    cutOut? line lineNumber inDirective later r = some (ofLine line lineNumber inDirective r).1 := by
  have hrest : Text.fromByte? line (Text.byteLength (Sentinel.textOf (Sentinel.cut line).1)) =
      some (Sentinel.cut line).2 :=
    Text.fromByte?_eq_some_iff.mpr ⟨_, (Sentinel.textOf_cut_append line).symm, rfl⟩
  cases inDirective with
  | true =>
    have hstatement := Cut.statement?_directive (Sentinel.cut line).2
    simp only [cutOut?, hrest, if_true, Bool.true_or, Option.bind_eq_bind, Option.bind_some,
      List.mapM_cons, List.mapM_nil, hstatement]
    rfl
  | false =>
    obtain ⟨cuts, hcuts, hstatements⟩ := Option.bind_eq_some_iff.mp
      (Statement.mapM_ofText? (Sentinel.cut line).2 r later)
    simp only [cutOut?, hrest, hcuts, Bool.false_eq_true, if_false, Bool.false_or,
      Option.bind_eq_bind, Option.bind_some, hstatements]
    rfl

end Segment

end FreeForm
