import FreeForm.Proofs.Joining
import FreeForm.Proofs.Marks
import FreeForm.Proofs.Simulation

namespace FreeForm

open Text

namespace Text

def withReturns (t : Text) : Text :=
  t.flatMap fun c ↦ if c = '\n' then ['\r', '\n'] else [c]

@[simp] theorem withReturns_nil : withReturns [] = [] := rfl

@[simp] theorem withReturns_newline : withReturns ['\n'] = ['\r', '\n'] := rfl

@[simp] theorem withReturns_cons_of_ne {c : Char} (hc : c ≠ '\n') (t : Text) :
    withReturns (c :: t) = c :: withReturns t := by
  simp [withReturns, hc]

@[simp] theorem withReturns_append (s t : Text) :
    withReturns (s ++ t) = withReturns s ++ withReturns t := by
  simp [withReturns]

theorem withReturns_of_not_mem {t : Text} (h : '\n' ∉ t) : withReturns t = t := by
  induction t with
  | nil => rfl
  | cons c t ih =>
    obtain ⟨hc, ht⟩ : '\n' ≠ c ∧ '\n' ∉ t := by simpa using h
    rw [withReturns_cons_of_ne (Ne.symm hc), ih ht]

theorem withReturns_concat {body : Text} (h : '\n' ∉ body) :
    withReturns (body ++ ['\n']) = body ++ ['\r', '\n'] := by
  rw [withReturns_append, withReturns_of_not_mem h]
  rfl

theorem cutLines_withReturns (t : Text) : PhysicalLine.cutLines '\n' (withReturns t) =
    (PhysicalLine.cutLines '\n' t).map withReturns := by
  apply PhysicalLine.cutLines_flatMap_char
  · exact ⟨['\r'], by decide, rfl⟩
  · intro c hc
    rw [if_neg hc]
    exact ⟨List.cons_ne_nil c [], by simpa using Ne.symm hc⟩

theorem expandTabs_withReturns (width : Nat) (t : Text) :
    expandTabs width (withReturns t) = withReturns (expandTabs width t) := by
  rw [expandTabs, withReturns, expandTabs, withReturns, List.flatMap_assoc, List.flatMap_assoc]
  congr 1
  funext c
  by_cases hnewline : c = '\n'
  · subst hnewline
    rfl
  · by_cases htab : c = '\t'
    · have hspaces : '\n' ∉ List.replicate width ' ' := fun hmem ↦ by
        cases List.eq_of_mem_replicate hmem
      have hkept := withReturns_of_not_mem hspaces
      rw [withReturns] at hkept
      simp [htab, hkept]
    · simp [hnewline, htab]

theorem IsLine.withReturns_eq {t : Text} (h : IsLine t) :
    '\n' ∉ t ∧ withReturns t = t ∨
      ∃ body, '\n' ∉ body ∧ t = body ++ ['\n'] ∧ withReturns t = body ++ ['\r', '\n'] := by
  obtain ⟨body, hbody, rfl | rfl⟩ := h.exists_eq
  · exact Or.inl ⟨hbody, withReturns_of_not_mem hbody⟩
  · exact Or.inr ⟨body, hbody, rfl, withReturns_concat hbody⟩

theorem trim_withReturns {t : Text} (h : IsLine t) : trim (withReturns t) = trim t := by
  rcases h.withReturns_eq with ⟨-, heq⟩ | ⟨body, -, rfl, heq⟩
  · rw [heq]
  · have hsplit : body ++ ['\r', '\n'] = body ++ ['\r'] ++ ['\n'] := by simp
    rw [heq, hsplit, trim_append_blank _ rfl, trim_append_blank _ rfl, trim_append_blank _ rfl]

theorem isEmpty_withReturns (t : Text) : (withReturns t).isEmpty = t.isEmpty := by
  cases t with
  | nil => rfl
  | cons c t => by_cases hc : c = '\n' <;> simp [withReturns, hc]

theorem startsDirective_withReturns {t : Text} (h : IsLine t) :
    Marker.startsDirective (Marker.window (withReturns t)) =
      Marker.startsDirective (Marker.window t) := by
  rcases h.withReturns_eq with ⟨-, heq⟩ | ⟨body, -, rfl, heq⟩
  · rw [heq]
  · rw [heq]
    rcases body with _ | ⟨c, _ | ⟨d, body⟩⟩
    · rfl
    · by_cases hc : c = '#' <;> simp [Marker.window, Marker.startsDirective, hc]
    · rfl

end Text

namespace Region

open Marker

variable {r : Region} {closing : Bool}

theorem step_return (c : Char) (rest rest' : Text) :
    r.step closing c ('\r' :: rest) = r.step closing c ('\n' :: rest') := by
  by_cases hnext : needsNext c
  · cases closing with
    | true => rfl
    | false =>
      cases r with
      | code =>
        have hc : ((c = '#' ∨ c = '$') ∨ c = '@') ∨ c = '}' := by
          simpa [needsNext, isSigil] using hnext
        rcases hc with ((rfl | rfl) | rfl) | rfl <;> rfl
      | span sigil =>
        have hreturn : closes sigil (window (c :: '\r' :: rest)) = false := closes_of_isSigil _ _ rfl
        have hnewline : closes sigil (window (c :: '\n' :: rest')) = false :=
          closes_of_isSigil _ _ rfl
        simp [step, hreturn, hnewline]
      | literal | comment => rfl
  · exact step_of_needsNext (by simpa using hnext) _ _

theorem trace_return (t rest rest' : Text) :
    trace r closing t ('\r' :: rest) = trace r closing t ('\n' :: rest') := by
  induction t generalizing r closing with
  | nil => rfl
  | cons c t ih =>
    have hstep : r.step closing c (t ++ '\r' :: rest) = r.step closing c (t ++ '\n' :: rest') := by
      cases t with
      | nil => exact step_return c rest rest'
      | cons d t => exact step_congr rfl
    simp only [trace, hstep]
    rw [ih]

theorem endsCode_return (c : Char) (rest rest' : Text) :
    endsCode (window (c :: '\r' :: rest)) = endsCode (window (c :: '\n' :: rest')) := by
  by_cases hc : isSigil c
  · obtain (rfl | rfl) | rfl : (c = '#' ∨ c = '$') ∨ c = '@' := by simpa [isSigil] using hc
    all_goals rfl
  · have hc' : isSigil c = false := by simpa using hc
    rw [endsCode_of_isSigil _ hc', endsCode_of_isSigil _ hc']

/-- A line end moves nothing, and is shown or not, whichever it is. -/
theorem exists_sights_lineEnd (hr : r.IsProper) (t : Text) :
    ∃ (q : Region) (shown : Bool) (front : List Sight), front.map Prod.fst = t ∧
      walk r false (t ++ ['\n']) [] = (q, false) ∧
      walk r false (t ++ ['\r', '\n']) [] = (q, false) ∧
      sights r false (t ++ ['\n']) [] = front ++ [('\n', shown)] ∧
      sights r false (t ++ ['\r', '\n']) [] = front ++ [('\r', shown), ('\n', shown)] := by
  obtain ⟨hwalk', hsights⟩ := walk_sights_of_trace (@trace_return r false t ['\n'] [])
  obtain ⟨q, hq, hwalk⟩ : ∃ q : Region, q.IsProper ∧ walk r false t ['\n'] = (q, false) :=
    ⟨_, hr.walk _ _ _, Prod.ext rfl (walk_closing_of_isSigil rfl r t [])⟩
  have hreturn (rest : Text) : q.step false '\r' rest = ⟨q, false, q.isQuoted⟩ :=
    step_of_isProper hq rfl (by decide) rest
  have hnewline (rest : Text) : q.step false '\n' rest = ⟨q, false, q.isQuoted⟩ :=
    step_of_isProper hq rfl (by decide) rest
  refine ⟨q, (⟨q, false, q.isQuoted⟩ : Step).isShown, _, map_fst_sights r false t ['\n'], ?_⟩
  simp [walk_append, sights_append, hwalk', hsights, hwalk, walk, sights, hreturn, hnewline]

end Region

namespace Statement

open Region Marker

def withReturns (s : Statement) : Statement :=
  ⟨Text.withReturns s.code, s.separated, Text.withReturns s.comment⟩

theorem withReturns_of_not_mem {s : Statement} (h : '\n' ∉ s.text) : s.withReturns = s := by
  obtain ⟨hcode, hcomment⟩ : '\n' ∉ s.code ∧ '\n' ∉ s.comment := by
    simpa [text] using h
  rw [withReturns, Text.withReturns_of_not_mem hcode, Text.withReturns_of_not_mem hcomment]

theorem text_withReturns (s : Statement) : s.withReturns.text = Text.withReturns s.text := by
  cases h : s.separated <;> simp [withReturns, text, h]

theorem splitMark_lineEnd (r : Region) (closing : Bool) {t : Text} (ht : '\n' ∉ t) :
    splitMark r closing (t ++ ['\r', '\n']) = (splitMark r closing (t ++ ['\n'])).map
      fun (before, mark) ↦ (Text.withReturns before, Text.withReturns mark) := by
  induction t generalizing r closing with
  | nil =>
    have hreturn (rest : Text) : endsCode (window ('\r' :: rest)) = false :=
      endsCode_of_isSigil _ rfl
    have hnewline (rest : Text) : endsCode (window ('\n' :: rest)) = false :=
      endsCode_of_isSigil _ rfl
    simp [splitMark, hreturn, hnewline]
  | cons c t ih =>
    obtain ⟨hc, ht'⟩ : '\n' ≠ c ∧ '\n' ∉ t := by simpa using ht
    have hstep : r.step closing c (t ++ ['\r', '\n']) = r.step closing c (t ++ ['\n']) := by
      cases t with
      | nil => exact step_return c _ _
      | cons d t => exact step_congr rfl
    have hends : endsCode (window (c :: (t ++ ['\r', '\n']))) =
        endsCode (window (c :: (t ++ ['\n']))) := by
      cases t with
      | nil => exact endsCode_return c _ _
      | cons d t => rfl
    have hcons := withReturns_cons_of_ne (Ne.symm hc)
    rw [List.cons_append, List.cons_append, splitMark, splitMark, hstep, hends]
    split
    · simp [hcons, Text.withReturns_of_not_mem ht']
    · rw [ih _ _ ht', Option.map_map, Option.map_map]
      congr 1
      funext parts
      simp [hcons]

variable {front : List Sight} {shown : Bool}

theorem ofFinal_lineEnd (hfront : '\n' ∉ front.map Prod.fst) :
    ofFinal (front ++ [('\r', shown), ('\n', shown)]) =
      (ofFinal (front ++ [('\n', shown)])).withReturns := by
  cases shown with
  | true =>
    rw [ofFinal_of_getLast_shown (by simp), ofFinal_of_getLast_shown (by simp), withReturns]
    simp [Text.withReturns_of_not_mem hfront]
  | false =>
    -- The line end stands in a literal or span, or in a comment: it is looked through with the tail.
    obtain ⟨front, tail, rfl, hlast, htail⟩ := exists_hidden_tail front
    rw [List.map_append, List.mem_append, not_or] at hfront
    have hhidden {ending : List Sight} (hending : ∀ a ∈ ending, a.2 = false) :
        ∀ a ∈ tail ++ ending, a.2 = false := List.forall_mem_append.mpr ⟨htail, hending⟩
    rw [List.append_assoc, List.append_assoc, ofFinal_append hlast (hhidden (by simp)),
      ofFinal_append hlast (hhidden (by simp))]
    have hsplit := splitMark_lineEnd .code false hfront.2
    simp only [List.map_append, List.map_cons, List.map_nil]
    rw [hsplit]
    cases splitMark .code false (tail.map Prod.fst ++ ['\n']) with
    | none =>
      simp [withReturns, Text.withReturns_of_not_mem hfront.1, Text.withReturns_of_not_mem hfront.2]
    | some parts => simp [withReturns, Text.withReturns_of_not_mem hfront.1]

theorem ofSights_lineEnd (hfront : '\n' ∉ front.map Prod.fst) :
    ofSights (front ++ [('\r', shown), ('\n', shown)]) =
      (ofSights (front ++ [('\n', shown)])).map withReturns := by
  have hreturn : cutsBehind ('\r', shown) = false := by simp [cutsBehind]
  have hnewline : cutsBehind ('\n', shown) = false := by simp [cutsBehind]
  induction front using cut_induction cutsBehind with
  | whole front hw =>
    rw [ofSights_of_forall, ofSights_of_forall, ofFinal_lineEnd hfront]
    · rfl
    · simpa only [List.forall_mem_append, List.forall_mem_singleton, hnewline, and_true] using hw
    · rw [List.forall_mem_append, List.forall_mem_cons, List.forall_mem_singleton]
      exact ⟨hw, hreturn, hnewline⟩
  | cut piece a rest hp ha ih =>
    obtain ⟨c, visible⟩ := a
    obtain ⟨rfl, rfl⟩ : visible = true ∧ c = ';' := by simpa [cutsBehind] using ha
    obtain ⟨hpiece, hrest⟩ : '\n' ∉ piece.map Prod.fst ∧ '\n' ∉ rest.map Prod.fst := by
      simpa using hfront
    have hfirst : withReturns ⟨piece.map Prod.fst, true, []⟩ = ⟨piece.map Prod.fst, true, []⟩ := by
      apply withReturns_of_not_mem
      simpa [text] using hpiece
    rw [List.append_assoc, List.append_assoc, List.cons_append, List.cons_append,
      ofSights_append_cons hp, ofSights_append_cons hp, List.isEmpty_eq_false_iff.mpr (by simp),
      List.isEmpty_eq_false_iff.mpr (by simp), if_neg Bool.false_ne_true,
      if_neg Bool.false_ne_true, List.map_cons, hfirst, ih hrest]

theorem ofText_lineEnd {t : Text} (ht : '\n' ∉ t) {r : Region} (hr : r.IsProper) :
    ofText (t ++ ['\r', '\n']) r =
      ((ofText (t ++ ['\n']) r).1.map withReturns, (ofText (t ++ ['\n']) r).2) := by
  obtain ⟨q, shown, front, hfront, hwalk, hwalk', hsights, hsights'⟩ :=
    exists_sights_lineEnd hr.carried t
  rw [ofText_eq, ofText_eq, hwalk, hwalk', hsights, hsights',
    ofSights_lineEnd (by rwa [hfront])]

end Statement

namespace Segment

def withReturns (s : Segment) : Segment :=
  { s with toStatement := s.toStatement.withReturns }

/-- The segment has no newline but one at its end, behind its sentinel. -/
structure IsLined (s : Segment) : Prop where
  sentinel : '\n' ∉ Sentinel.textOf s.sentinel
  source : IsLine s.source

variable {s : Segment}

theorem IsLined.code (h : s.IsLined) : IsLine s.code :=
  h.source.of_infix s.code_infix_source

theorem IsLined.comment (h : s.IsLined) : IsLine s.comment :=
  h.source.of_infix s.comment_suffix_source.isInfix

theorem withReturns_of_not_mem (h : '\n' ∉ s.source) : s.withReturns = s := by
  have htext : '\n' ∉ s.toStatement.text := fun hmem ↦ h (List.mem_append_right _ hmem)
  rw [withReturns, Statement.withReturns_of_not_mem htext]

theorem place_withReturns (sentinel : Option Sentinel) (lineNumber : Nat) (newline : Bool)
    (statements : List Statement) :
    (place sentinel lineNumber newline statements).map withReturns =
      place sentinel lineNumber newline (statements.map Statement.withReturns) := by
  cases statements <;> simp [place, withReturns, Function.comp_def]

theorem isLined_of_mem_ofLine {line : Text} (hline : IsLine line) {n : Nat} {inDirective : Bool}
    {r : Region} (h : s ∈ (ofLine line n inDirective r).1) : s.IsLined := by
  refine ⟨?_, hline.of_infix (source_infix_of_mem_ofLine h)⟩
  have hcut : '\n' ∉ Sentinel.textOf (Sentinel.cut line).1 := by
    obtain ⟨body, hbody, heq⟩ := hline.exists_eq
    have hsentinel : (Sentinel.cut line).1 = (Sentinel.cut body).1 := by
      rcases heq with rfl | rfl
      · rfl
      · rw [Sentinel.cut_lineEnd (Or.inl rfl)]
    intro hmem
    rw [hsentinel] at hmem
    rw [← Sentinel.textOf_cut_append body] at hbody
    exact hbody (List.mem_append_left _ hmem)
  rcases (of_mem_ofLine h).1 with hs | hs
  · rwa [hs]
  · rw [hs]
    exact List.not_mem_nil

theorem ofLine_withReturns {line : Text} (hline : IsLine line) (n : Nat) (inDirective : Bool)
    {r : Region} (hr : r.IsProper) : ofLine (Text.withReturns line) n inDirective r =
      ((ofLine line n inDirective r).1.map withReturns, (ofLine line n inDirective r).2) := by
  rcases hline.withReturns_eq with ⟨hnot, heq⟩ | ⟨body, hbody, rfl, heq⟩
  · have hmap : (ofLine line n inDirective r).1.map withReturns = (ofLine line n inDirective r).1 :=
      (List.map_congr_left fun s hs ↦ withReturns_of_not_mem fun hmem ↦
        hnot ((source_infix_of_mem_ofLine hs).subset hmem)).trans (List.map_id _)
    rw [heq, hmap]
  · have hrest : '\n' ∉ (Sentinel.cut body).2 := fun hmem ↦
      hbody (Sentinel.textOf_cut_append body ▸ List.mem_append_right _ hmem)
    have hends : endsWith '\n' (body ++ ['\r', '\n']) = endsWith '\n' (body ++ ['\n']) := by
      simp [endsWith]
    rw [heq]
    cases inDirective with
    | true =>
      rw [ofLine_directive, ofLine_directive, Sentinel.cut_lineEnd (Or.inr rfl),
        Sentinel.cut_lineEnd (Or.inl rfl), hends, place_withReturns]
      simp [Statement.ofDirective, Statement.withReturns, Text.withReturns_of_not_mem hrest]
    | false =>
      rw [ofLine_code, ofLine_code, Sentinel.cut_lineEnd (Or.inr rfl),
        Sentinel.cut_lineEnd (Or.inl rfl), hends, place_withReturns, Statement.ofText_lineEnd hrest hr]

theorem region_ofLine_isProper {r : Region} (hr : r.IsProper) (line : Text) (n : Nat)
    (inDirective : Bool) : (ofLine line n inDirective r).2.IsProper := by
  cases inDirective with
  | true => exact hr
  | false =>
    rw [ofLine_code, Statement.ofText_eq]
    exact (hr.carried.walk _ _ _).carried

theorem source_withReturns (h : s.IsLined) : s.withReturns.source = Text.withReturns s.source := by
  rw [source, source, withReturns_append, Text.withReturns_of_not_mem h.sentinel,
    ← Statement.text_withReturns]
  rfl

theorem trimmed_withReturns (h : s.IsLined) : s.withReturns.trimmed = s.trimmed :=
  trim_withReturns h.code

theorem lineEnd_withReturns (s : Segment) : s.withReturns.lineEnd = s.lineEnd := by
  have hempty : s.withReturns.comment.isEmpty = s.comment.isEmpty := isEmpty_withReturns s.comment
  rw [lineEnd, hempty]
  rfl

theorem remark_withReturns (h : s.IsLined) :
    s.withReturns.remark = s.remark ∨ s.withReturns.remark = s.remark ++ ['\r'] := by
  have hcomment : s.withReturns.comment = Text.withReturns s.comment := rfl
  rw [remark, remark, hcomment]
  rcases h.comment.withReturns_eq with ⟨-, heq⟩ | ⟨body, hbody, hs, heq⟩
  · exact Or.inl (by rw [heq])
  · right
    have hsplit : body ++ ['\r', '\n'] = body ++ ['\r'] ++ ['\n'] := by simp
    have hreturn : '\n' ∉ body ++ ['\r'] := by simpa using hbody
    rw [heq, hsplit, hs, dropEndWhile_append_singleton _ (body ++ ['\r']), if_pos (by decide),
      dropEndWhile_of_not_mem hreturn, dropEndWhile_append_singleton, if_pos (by decide),
      dropEndWhile_of_not_mem hbody]

end Segment

theorem Continuation.after_withReturns {s : Segment} (h : s.IsLined) (c : Continuation) :
    c.after s.withReturns = c.after s := by
  have hcomment : s.withReturns.comment = Text.withReturns s.comment := rfl
  simp only [after, Segment.trimmed_withReturns h, hcomment, isEmpty_withReturns,
    startsDirective_withReturns h.comment, trim_withReturns h.comment]

namespace LogicalLine

structure SameButReturns (l l' : LogicalLine) : Prop where
  joined : l'.joined = l.joined
  comments : List.Forall₂ (fun comment comment' ↦ comment' = comment ∨ comment' = comment ++ ['\r'])
    l.comments l'.comments
  lines : l'.lines = l.lines.map withReturns
  lineNumber : l'.lineNumber = l.lineNumber

theorem join_withReturns {s : Segment} (h : s.IsLined) (joined : Text) :
    join joined s.withReturns = join joined s := by
  have hcore : s.withReturns.core = s.core := by
    rw [Segment.core, Segment.trimmed_withReturns h, Segment.core]
  rw [join, join, hcore, Segment.lineEnd_withReturns]
  rfl

theorem sameButReturns {segments : List Segment} (h : ∀ s ∈ segments, s.IsLined) :
    SameButReturns (ofSegments segments) (ofSegments (segments.map Segment.withReturns)) := by
  constructor
  · simp only [ofSegments, List.foldl_map]
    generalize ([] : Text) = joined
    induction segments generalizing joined with
    | nil => rfl
    | cons s segments ih =>
      obtain ⟨hs, hrest⟩ := List.forall_mem_cons.mp h
      rw [List.foldl_cons, List.foldl_cons, join_withReturns hs, ih hrest]
  · simp only [ofSegments, List.map_map, List.forall₂_map_left_iff, List.forall₂_map_right_iff,
      List.forall₂_same, Function.comp_apply]
    exact fun s hs ↦ Segment.remark_withReturns (h s hs)
  · simp only [ofSegments, List.map_map]
    exact List.map_congr_left fun s hs ↦ Segment.source_withReturns (h s hs)
  · cases segments <;> rfl

end LogicalLine

/-- Whether lines end with carriage returns and newlines or with newlines alone does not matter for what
is cut off, what stays open and where the next line starts. -/
theorem isRespelling_withReturns (tabWidth : Nat) :
    IsRespelling tabWidth tabWidth withReturns Segment.withReturns Segment.IsLined
      fun _ r source ↦ r.IsProper ∧ (∀ t, .text t ∈ source.unread → IsLine t) ∧
        ∀ s ∈ source.queue, s.IsLined where
  line := by
    rintro c r t unread n ⟨hr, hunread, -⟩
    obtain ⟨ht, htail⟩ := hunread t List.mem_cons_self, fun t ht ↦
      hunread t (List.mem_cons_of_mem _ ht)
    have hexpand := (isLine_expandTabs ht tabWidth).1
    rw [expandTabs_withReturns]
    exact ⟨Segment.ofLine_withReturns hexpand _ _ hr, Segment.region_ofLine_isProper hr _ _ _, htail,
      fun s hs ↦ Segment.isLined_of_mem_ofLine hexpand hs⟩
  undecodable := fun ⟨hr, hunread, hqueue⟩ ↦
    ⟨hr, fun t ht ↦ hunread t (List.mem_cons_of_mem _ ht), hqueue⟩
  segment := by
    rintro c r unread n s queue ⟨hr, hunread, hqueue⟩
    obtain ⟨hs, hqueue⟩ := List.forall_mem_cons.mp hqueue
    exact ⟨hs, Continuation.after_withReturns hs c, hr, hunread, hqueue⟩
  restart := fun ⟨_, hsource⟩ ↦ ⟨trivial, hsource⟩
  lineNumber _ := rfl

namespace Lexer

theorem ofText_withReturns (t : Text) (s : Settings) (filename : Text) :
    ofText (withReturns t) s filename =
      (ofText t s filename).respell s.tabWidth withReturns Segment.withReturns :=
  ofText_respell (cutLines_withReturns t) Segment.withReturns s filename s.tabWidth

/-- A text in which a carriage return has been put in front of each newline is lexed in the same way,
step by step: but for the spelling of its lines, and a carriage return at the end of a comment. -/
theorem steps_withReturns (t : Text) (s : Settings) (filename : Text) :
    List.Forall₂ (Step.Agrees LogicalLine.SameButReturns)
      (ofBytes (Text.encode t) s filename).steps
      (ofBytes (Text.encode (withReturns t)) s filename).steps := by
  rw [ofBytes_encode, ofBytes_encode, ofText_withReturns]
  apply (isRespelling_withReturns s.tabWidth).steps (fun segments ↦ LogicalLine.sameButReturns) rfl
  refine ⟨trivial, fun line hline ↦ ?_, by simp [ofText, ofLines, Source.ofLines]⟩
  obtain ⟨_, hmem, heq⟩ := List.mem_map.mp hline
  obtain rfl := PhysicalLine.text.inj heq
  exact PhysicalLine.not_mem_dropLast_of_mem_cutLines hmem

end Lexer

end FreeForm
