import FreeForm.Proofs.Marks
import FreeForm.Proofs.Resuming
import Mathlib.Data.List.Infix

namespace FreeForm

open Text Marker

namespace Marker

theorem opener?_of_endsCode {t : Text} (h : endsCode (window t)) : opener? (window t) = none := by
  rcases t with _ | ⟨c, _ | ⟨d, t⟩⟩
  · rfl
  · rfl
  · cases hopener : opener? (window (c :: d :: t)) with
    | none => rfl
    | some sigil =>
      have hc : isSigil c := by
        by_contra hc
        rw [opener?_of_isSigil _ (by simpa using hc)] at hopener
        cases hopener
      have hd : d = '{' := by
        by_contra hd
        simp [window, opener?, hd] at hopener
      subst hd
      obtain (rfl | rfl) | rfl : (c = '#' ∨ c = '$') ∨ c = '@' := by simpa [isSigil] using hc
      all_goals cases h

theorem closes_window_iff {sigil : Char} (hs : isSigil sigil) (c : Char) (rest : Text) :
    closes sigil (window (c :: rest)) ↔ c = '}' ∧ rest.head? = some sigil := by
  by_cases hc : c = '}'
  · rcases rest with _ | ⟨d, rest⟩
    · simp [window, closes]
    · by_cases hd : d = sigil
      · subst hd
        simp [hc, window, closes, hasCloser, hs]
      · simp [hc, window, closes, hd]
  · simp [closes_of_ne rest sigil hc, hc]

end Marker

inductive Piece where
  | code (t : Text)
  | literal (delimiter : Char) (body : Text)
  | span (sigil : Char) (body : Text)

namespace Piece

def text : Piece → Text
  | code t => t
  | literal delimiter body => delimiter :: (body ++ [delimiter])
  | span sigil body => sigil :: '{' :: (body ++ ['}', sigil])

def isQuoted : Piece → Bool
  | code _ => false
  | literal _ _ | span _ _ => true

/-- The piece keeps to the grammar, with `ahead` behind it: code holds no quote, nor a mark or an opener,
not even one that reaches into `ahead`, and what closes a literal or span does not occur before. -/
def IsWritten (ahead : Text) : Piece → Prop
  | code t => '\'' ∉ t ∧ '"' ∉ t ∧ ∀ back ∈ t.tails, back ≠ [] →
      endsCode (window (back ++ ahead)) = false ∧ opener? (window (back ++ ahead)) = none
  | literal delimiter body => (delimiter = '\'' ∨ delimiter = '"') ∧ delimiter ∉ body
  | span sigil body => isSigil sigil ∧
      ∀ back ∈ (body ++ ['}', sigil]).tails, ['}', sigil] <+: back → back = ['}', sigil]

instance (ahead : Text) : (p : Piece) → Decidable (p.IsWritten ahead)
  | code _ => inferInstanceAs (Decidable (_ ∧ _ ∧ _))
  | literal _ _ | span _ _ => inferInstanceAs (Decidable (_ ∧ _))

/-- All pieces keep to the grammar, with `tail` behind the last one: nothing, or what a mark starts. -/
def AreWritten (tail : Text) : List Piece → Prop
  | [] => tail = [] ∨ endsCode (window tail)
  | p :: pieces => p.IsWritten (pieces.flatMap text ++ tail) ∧ AreWritten tail pieces

instance decidableAreWritten (tail : Text) : (pieces : List Piece) → Decidable (AreWritten tail pieces)
  | [] => inferInstanceAs (Decidable (_ ∨ _))
  | p :: pieces =>
    have := decidableAreWritten tail pieces
    inferInstanceAs (Decidable (p.IsWritten _ ∧ AreWritten tail pieces))

def codeAt : (offset : Nat) → List Piece → List Placed
  | _, [] => []
  | offset, p :: pieces =>
    (if p.isQuoted then [] else indices offset p.text) ++ codeAt (offset + byteLength p.text) pieces

end Piece

namespace Region

/-- A scan that reads `t`, with `ahead` behind it, stands in code in the end. It meets no comment, and
takes all of `t` for quoted text, or nothing. -/
structure Crosses (quoted : Bool) (r : Region) (closing : Bool) (t ahead : Text) : Prop where
  walk : r.walk closing t ahead = (.code, false)
  steps : ∀ s ∈ r.trace closing t ahead, s.region ≠ .comment ∧ s.quoted = quoted

variable {quoted closing : Bool} {r : Region} {c : Char} {t body ahead : Text}

theorem Crosses.nil (quoted : Bool) (ahead : Text) : Crosses quoted .code false [] ahead :=
  ⟨rfl, by simp⟩

theorem Crosses.cons {r' : Region} {closing' : Bool}
    (hstep : r.step closing c (t ++ ahead) = ⟨r', closing', quoted⟩) (hr : r' ≠ .comment)
    (h : Crosses quoted r' closing' t ahead) : Crosses quoted r closing (c :: t) ahead := by
  constructor
  · rw [Region.walk, hstep]
    exact h.walk
  · intro s hs
    rw [trace, hstep] at hs
    rcases List.mem_cons.mp hs with rfl | hs
    · exact ⟨hr, rfl⟩
    · exact h.steps s hs

theorem crosses_code (hquote : '\'' ∉ t ∧ '"' ∉ t)
    (hmark : ∀ back ∈ t.tails, back ≠ [] →
      endsCode (window (back ++ ahead)) = false ∧ opener? (window (back ++ ahead)) = none) :
    Crosses false .code false t ahead := by
  induction t with
  | nil => exact .nil false ahead
  | cons c t ih =>
    rw [List.tails_cons, List.forall_mem_cons] at hmark
    obtain ⟨hends, hopener⟩ := hmark.1 (List.cons_ne_nil c t)
    rw [List.cons_append] at hends hopener
    have hc : ¬(c = '\'' ∨ c = '"') := by
      rintro (rfl | rfl)
      · exact hquote.1 List.mem_cons_self
      · exact hquote.2 List.mem_cons_self
    have hrest : '\'' ∉ t ∧ '"' ∉ t := hquote.imp (mt (List.mem_cons_of_mem c))
      (mt (List.mem_cons_of_mem c))
    refine .cons ?_ (by simp) (ih hrest hmark.2)
    simp [step, hopener, hends, hc]

theorem crosses_literal {delimiter : Char} (h : delimiter ∉ body) (ahead : Text) :
    Crosses true (.literal delimiter) false (body ++ [delimiter]) ahead := by
  induction body with
  | nil =>
    refine .cons ?_ (by simp) (.nil true ahead)
    simp [step]
  | cons c body ih =>
    have hc : c ≠ delimiter := fun hc ↦ h (hc ▸ List.mem_cons_self)
    refine .cons ?_ (by simp) (ih fun hmem ↦ h (List.mem_cons_of_mem c hmem))
    simp [step, hc]

theorem crosses_span {sigil : Char} (hs : isSigil sigil)
    (h : ∀ back ∈ (body ++ ['}', sigil]).tails, ['}', sigil] <+: back → back = ['}', sigil])
    (ahead : Text) : Crosses true (.span sigil) false (body ++ ['}', sigil]) ahead := by
  induction body with
  | nil =>
    have hcloses : closes sigil (window ('}' :: sigil :: ahead)) :=
      (closes_window_iff hs _ _).mpr ⟨rfl, rfl⟩
    have hbrace : step (.span sigil) false '}' (sigil :: ahead) = ⟨.code, true, true⟩ := by
      simp [step, hcloses]
    exact .cons hbrace (by simp) (.cons rfl (by simp) (.nil true ahead))
  | cons c body ih =>
    rw [List.cons_append] at h ⊢
    rw [List.tails_cons, List.forall_mem_cons] at h
    -- A closer that starts here would not be the last one.
    have hcloses : closes sigil (window (c :: (body ++ ['}', sigil] ++ ahead))) = false := by
      rw [← Bool.not_eq_true, closes_window_iff hs]
      rintro ⟨rfl, hhead⟩
      have hhead' : (body ++ ['}', sigil]).head? = some sigil := by
        cases body <;> simpa using hhead
      obtain ⟨back, hback⟩ := List.head?_eq_some_iff.mp hhead'
      have hlast := h.1 (by rw [hback]; simp)
      simpa using congrArg List.length hlast
    refine .cons ?_ (by simp) (ih h.2)
    simpa [step] using hcloses

theorem crosses_piece {p : Piece} (h : p.IsWritten ahead) :
    Crosses p.isQuoted .code false p.text ahead := by
  cases p with
  | code t => exact crosses_code ⟨h.1, h.2.1⟩ h.2.2
  | literal delimiter body =>
    obtain ⟨hquote, hbody⟩ := h
    refine .cons ?_ (by simp) (crosses_literal hbody ahead)
    rcases hquote with rfl | rfl
    all_goals simp [step, opener?_of_isSigil, endsCode_of_isSigil, isSigil, Piece.isQuoted]
  | span sigil body =>
    obtain ⟨hsigil, hbody⟩ := h
    have hopens (rest : Text) : step .code false sigil ('{' :: rest) = ⟨.span sigil, false, true⟩ := by
      simp [step, window, opener?, hsigil]
    have hbrace (rest : Text) : step (.span sigil) false '{' rest = ⟨.span sigil, false, true⟩ := by
      simp [step, closes_of_ne]
    have hinside := crosses_span hsigil hbody ahead
    exact .cons (hopens _) (by simp) (.cons (hbrace _) (by simp) hinside)

theorem trace_comment (t ahead : Text) :
    trace .comment false t ahead = t.map fun _ ↦ ⟨.comment, false, false⟩ := by
  induction t with
  | nil => rfl
  | cons c t ih =>
    rw [trace, List.map_cons, ← ih]
    rfl

end Region

namespace Scanner

open Region

def passesIn (offset : Nat) (t ahead : Text) : List (Placed × Step) :=
  (indices offset t).zip (trace .code false t ahead)

theorem passes_ofLine (line : Text) (view : View) :
    (ofLine line view).passes = passesIn 0 line [] :=
  rfl

theorem map_fst_passesIn (offset : Nat) (t ahead : Text) :
    (passesIn offset t ahead).map Prod.fst = indices offset t :=
  List.map_fst_zip (by simp)

variable {pieces : List Piece} {t rest tail : Text}

theorem passesIn_append {quoted : Bool} (h : Crosses quoted .code false t rest) (offset : Nat) :
    passesIn offset (t ++ rest) [] =
      passesIn offset t rest ++ passesIn (offset + byteLength t) rest [] := by
  rw [passesIn, indices_append, trace_append, List.append_nil, h.walk, List.zip_append (by simp)]
  rfl

theorem unquoted_passesIn {quoted : Bool} (h : Crosses quoted .code false t rest) (offset : Nat) :
    ((passesIn offset t rest).filter fun q ↦ !q.2.quoted).map Prod.fst =
      if quoted then [] else indices offset t := by
  have hquoted : ∀ q ∈ passesIn offset t rest, q.2.quoted = quoted := fun q hq ↦
    (h.steps q.2 (List.of_mem_zip hq).2).2
  cases quoted with
  | true =>
    have hnone : (passesIn offset t rest).filter (fun q ↦ !q.2.quoted) = [] := by
      apply List.filter_eq_nil_iff.mpr
      intro q hq
      simp [hquoted q hq]
    rw [hnone]
    rfl
  | false =>
    have hall : (passesIn offset t rest).filter (fun q ↦ !q.2.quoted) = passesIn offset t rest := by
      apply List.filter_eq_self.mpr
      intro q hq
      simp [hquoted q hq]
    rw [hall]
    exact map_fst_passesIn offset t rest

/-- A scan passes the pieces one by one, and then stands in code in front of what is behind them. -/
theorem exists_passesIn_pieces (h : Piece.AreWritten tail pieces) (offset : Nat) :
    ∃ front, passesIn offset (pieces.flatMap Piece.text ++ tail) [] =
        front ++ passesIn (offset + byteLength (pieces.flatMap Piece.text)) tail [] ∧
      (∀ q ∈ front, q.2.region ≠ .comment) ∧
      (front.filter fun q ↦ !q.2.quoted).map Prod.fst = Piece.codeAt offset pieces := by
  induction pieces generalizing offset with
  | nil => exact ⟨[], rfl, by simp, rfl⟩
  | cons p pieces ih =>
    obtain ⟨hp, hpieces⟩ := h
    have hcross := crosses_piece hp
    obtain ⟨front, hsplit, hregion, hcode⟩ := ih hpieces (offset + byteLength p.text)
    rw [List.flatMap_cons, List.append_assoc, passesIn_append hcross, hsplit, byteLength_append,
      ← Nat.add_assoc]
    refine ⟨_, (List.append_assoc _ _ _).symm, ?_, ?_⟩
    · rw [List.forall_mem_append]
      exact ⟨fun q hq ↦ (hcross.steps q.2 (List.of_mem_zip hq).2).1, hregion⟩
    · rw [List.filter_append, List.map_append, unquoted_passesIn hcross, hcode, Piece.codeAt]

theorem walk_pieces (h : Piece.AreWritten tail pieces) :
    walk .code false (pieces.flatMap Piece.text ++ tail) [] = walk .code false tail [] := by
  induction pieces with
  | nil => rfl
  | cons p pieces ih =>
    obtain ⟨hp, hpieces⟩ := h
    rw [List.flatMap_cons, List.append_assoc, walk_append, List.append_nil, (crosses_piece hp).walk]
    exact ih hpieces

theorem eq_nil_or_of_areWritten (h : Piece.AreWritten tail pieces) :
    tail = [] ∨ ∃ c t, tail = c :: t ∧ step .code false c t = ⟨.comment, false, false⟩ := by
  induction pieces with
  | nil =>
    apply h.imp_right
    intro hends
    cases tail with
    | nil => cases hends
    | cons c t => exact ⟨c, t, rfl, by simp [step, opener?_of_endsCode hends, hends]⟩
  | cons p pieces ih => exact ih h.2

theorem step_of_mem_tail (h : Piece.AreWritten tail pieces) (offset : Nat) :
    ∀ q ∈ passesIn offset tail [], q.2 = ⟨.comment, false, false⟩ := by
  intro q hq
  have hmem := (List.of_mem_zip hq).2
  rcases eq_nil_or_of_areWritten h with rfl | ⟨c, t, rfl, hstep⟩
  · cases hmem
  · rw [trace, List.append_nil, hstep, trace_comment] at hmem
    rcases List.mem_cons.mp hmem with hq | hq
    · exact hq
    · obtain ⟨-, -, hq⟩ := List.mem_map.mp hq
      exact hq.symm

section

variable {s : Scanner} {hidesComments : Bool} {front behind : List (Placed × Step)}
variable (hv : s.view = ⟨hidesComments, true⟩) (hs : s.passes = front ++ behind)
variable (hfront : ∀ q ∈ front, q.2.region ≠ .comment)
variable (hbehind : ∀ q ∈ behind, q.2 = ⟨.comment, false, false⟩)
include hv hs hfront hbehind

theorem map_item_shown_of_comment : s.shown.map Visit.item =
    (front.filter fun q ↦ !q.2.quoted).map Prod.fst ++
      if hidesComments then [] else behind.map Prod.fst := by
  have hpos : ∀ q ∈ front, (!s.view.halts q.2) = true := by
    intro q hq
    simp [View.halts, hfront q hq]
  have htake : behind.takeWhile (fun q ↦ !s.view.halts q.2) =
      if hidesComments then [] else behind := by
    cases hidesComments with
    | true =>
      cases behind with
      | nil => rfl
      | cons q behind => simp [View.halts, hv, hbehind q List.mem_cons_self]
    | false => exact takeWhile_halts (by rw [hv]) behind
  have hkept : (if hidesComments then [] else behind).filter (fun q ↦ !q.2.quoted) =
      if hidesComments then [] else behind := by
    apply List.filter_eq_self.mpr
    intro q hq
    have hmem : q ∈ behind := by
      cases hidesComments with
      | true => cases hq
      | false => exact hq
    rw [hbehind q hmem]
    rfl
  have hhides : (fun q : Placed × Step ↦ !s.view.hides q.2) = fun q ↦ !q.2.quoted := by
    funext q
    simp [View.hides, hv]
  have hitem : Visit.item ∘ visit = Prod.fst := rfl
  rw [shown, hs, List.takeWhile_append_of_pos hpos, htake, List.map_map, hitem, hhides,
    List.filter_append, hkept, List.map_append]
  cases hidesComments <;> rfl

theorem haltedAt_drain_of_comment (hn : s.haltedAt = none) : s.drain.2.haltedAt =
    if hidesComments then behind.head?.map fun q ↦ q.1.1 else none := by
  have hnone : front.find? (fun q ↦ s.view.halts q.2) = none := by
    apply List.find?_eq_none.mpr
    intro q hq
    simp [View.halts, hfront q hq]
  rw [haltedAt_drain hn, hs, List.find?_append, hnone, Option.none_or]
  cases behind with
  | nil => cases hidesComments <;> rfl
  | cons q behind =>
    cases hidesComments with
    | true => simp [View.halts, hv, hbehind q List.mem_cons_self]
    | false => simp [View.halts, hv]

end

/-- Of pieces and what may be behind them a scan that hides quoted text shows the code of the pieces and
the comment behind them, and if it hides comments, too, it halts where that starts. -/
theorem yields_pieces (pieces : List Piece) (tail : Text) (h : Piece.AreWritten tail pieces)
    (hidesComments : Bool) :
    ∃ (visits : List Visit) (last : Scanner),
      (ofLine (pieces.flatMap Piece.text ++ tail) ⟨hidesComments, true⟩).Yields visits last ∧
        visits.map Visit.item = Piece.codeAt 0 pieces ++
          (if hidesComments then [] else indices (byteLength (pieces.flatMap Piece.text)) tail) ∧
        last.region = (if tail = [] then .code else .comment) ∧
        last.haltedAt = if hidesComments ∧ tail ≠ [] then
          some (byteLength (pieces.flatMap Piece.text)) else none := by
  obtain ⟨front, hsplit, hfront, hcode⟩ := exists_passesIn_pieces h 0
  rw [Nat.zero_add, ← passes_ofLine _ ⟨hidesComments, true⟩] at hsplit
  have hbehind := step_of_mem_tail h (byteLength (pieces.flatMap Piece.text))
  refine ⟨_, _, yields_shown rfl, ?_, ?_, ?_⟩
  · rw [map_item_shown_of_comment rfl hsplit hfront hbehind, hcode, map_fst_passesIn]
  · rw [region_drain_ofLine, walk_pieces h]
    rcases eq_nil_or_of_areWritten h with rfl | ⟨c, t, rfl, hstep⟩
    · rfl
    · rw [walk, List.append_nil, hstep, walk_comment, if_neg (List.cons_ne_nil c t)]
  · rw [haltedAt_drain_of_comment rfl hsplit hfront hbehind rfl]
    cases tail <;> cases hidesComments <;> rfl

/-- A literal beside another, spans with a quote and other closers in them, the second with a blank behind
it, as a preprocessor line has behind its mark, and a sigil in front of a comment. -/
def quotedPieces : List Piece :=
  [.code "x = ".toList, .literal '\'' "it".toList, .literal '\'' "s; !".toList, .code " // ".toList,
    .span '$' "f('\x7d#, \x7d".toList, .span '#' [], .code " + ä; $".toList]

theorem yields_pieces_quotedPieces :
    Piece.AreWritten "! it's".toList quotedPieces ∧
      ∃ (visits : List Visit) (last : Scanner),
        (ofLine "x = 'it''s; !' // $\x7bf('\x7d#, \x7d\x7d$#\x7b\x7d# + ä; $! it's".toList
          ⟨true, true⟩).Yields visits last ∧
          visits.map Visit.item = indices 0 "x = ".toList ++ indices 14 " // ".toList ++
            indices 34 " + ä; $".toList ∧
          last.region = .comment ∧ last.haltedAt = some 42 := by
  have h : Piece.AreWritten "! it's".toList quotedPieces := by decide
  exact ⟨h, yields_pieces quotedPieces "! it's".toList h true⟩

end Scanner

end FreeForm
