import FreeForm.Proofs.Progress
import FreeForm.Proofs.Simulation
import FreeForm.Proofs.Uncommenting

namespace FreeForm

open Text

namespace Segment

variable {s : Segment}

theorem uncommented_of_comment (h : s.comment = []) : s.uncommented = s := by
  rw [uncommented, Statement.uncommented_of_comment h]

theorem trimmed_uncommented (s : Segment) : s.uncommented.trimmed = s.trimmed := by
  by_cases h : s.comment = []
  · rw [uncommented_of_comment h]
  · have hcode : s.uncommented.code = s.code ++ ['\n'] := by
      simp [uncommented, Statement.uncommented, h]
    rw [trimmed, hcode, trim_append_blank _ rfl]
    rfl

theorem comment_uncommented (s : Segment) : s.uncommented.comment = [] := by
  by_cases h : s.comment = []
  · rw [uncommented_of_comment h, h]
  · simp [uncommented, Statement.uncommented, h]

end Segment

theorem Continuation.after_uncommented {c : Continuation} {s : Segment} (hd : c.directive = false)
    (hs : Marker.startsDirective (Marker.window s.comment) = false) :
    c.after s.uncommented = c.after s ∧ (c.after s).directive = false := by
  have hdirective : (c.after s).directive = false := by
    simp [after, hd, hs]
  refine ⟨?_, hdirective⟩
  simp only [after] at hdirective ⊢
  rw [Segment.trimmed_uncommented, Segment.comment_uncommented, hdirective]
  simp [hd]

def PhysicalLine.uncommented (tabWidth : Nat) : PhysicalLine → PhysicalLine
  | text t => text (Text.uncommented tabWidth t)
  | undecodable => undecodable

def Source.uncommented (tabWidth : Nat) (source : Source) : Source :=
  ⟨source.unread.map (PhysicalLine.uncommented tabWidth), source.linesRead,
    source.queue.map Segment.uncommented⟩

structure Source.IsSelfContained (tabWidth : Nat) (source : Source) : Prop where
  unread : ∀ t, .text t ∈ source.unread →
    Text.IsSelfContained tabWidth t ∧ IsLine t ∧ endsWith '\n' t
  queue : ∀ s ∈ source.queue, Marker.startsDirective (Marker.window s.comment) = false

theorem Source.IsSelfContained.tail {tabWidth n : Nat} {unread : List PhysicalLine} {s : Segment}
    {queue : List Segment} (h : IsSelfContained tabWidth ⟨unread, n, s :: queue⟩) :
    IsSelfContained tabWidth ⟨unread, n, queue⟩ :=
  ⟨h.unread, fun s hs ↦ h.queue s (List.mem_cons_of_mem _ hs)⟩

theorem isRespelling_uncommented (tabWidth : Nat) :
    IsRespelling tabWidth tabWidth (Text.uncommented tabWidth) Segment.uncommented (fun _ ↦ True)
      fun c r source ↦ c.directive = false ∧ r = .code ∧ source.IsSelfContained tabWidth where
  line := by
    rintro c _ t unread n ⟨hd, rfl, h⟩
    -- The line ends in code, with its comment or without it: so both scans start in code on the next.
    obtain ⟨ht, hline, hend⟩ := h.unread t List.mem_cons_self
    obtain ⟨hregion, hcomment, hsegments⟩ := (ht.isUncommented hline hend).1 (n + 1)
    rw [hd, hsegments]
    exact ⟨Prod.ext rfl hregion.symm, rfl, hregion,
      fun t ht ↦ h.unread t (List.mem_cons_of_mem _ ht), hcomment⟩
  undecodable := fun ⟨hd, hr, h⟩ ↦
    ⟨hd, hr, fun t ht ↦ h.unread t (List.mem_cons_of_mem _ ht), h.queue⟩
  segment := by
    rintro c r unread n s queue ⟨hd, hr, h⟩
    obtain ⟨hafter, hdirective⟩ := Continuation.after_uncommented hd (h.queue s List.mem_cons_self)
    exact ⟨trivial, hafter, hdirective, hr, h.tail⟩
  restart := fun ⟨_, _, h⟩ ↦ ⟨rfl, rfl, h⟩
  lineNumber _ := rfl

namespace LogicalLine

/-- The same statement, perhaps with a newline behind its code in the second. -/
structure SameCode (l l' : LogicalLine) : Prop where
  joined : l'.joined = l.joined ∨ l'.joined = l.joined ++ ['\n']
  length : l'.lines.length = l.lines.length
  lineNumber : l'.lineNumber = l.lineNumber

theorem lineEnd_uncommented (s : Segment) :
    s.uncommented.lineEnd = s.lineEnd ∨ s.lineEnd = [] ∧ s.uncommented.lineEnd = ['\n'] := by
  by_cases hs : s.comment = []
  · exact Or.inl (by rw [Segment.uncommented_of_comment hs])
  · have hempty : s.lineEnd = [] := by simp [Segment.lineEnd, hs]
    have hcomment := s.comment_uncommented
    rcases s.uncommented.lineEnd_eq with h | h
    · exact Or.inl (h.trans hempty.symm)
    · exact Or.inr ⟨hempty, h⟩

theorem join_uncommented {joined joined' : Text}
    (h : joined' = joined ∨ joined' = joined ++ ['\n']) (s : Segment) :
    join joined' s.uncommented = join joined s ∨
      join joined' s.uncommented = join joined s ++ ['\n'] := by
  have hblank : isBlankText joined' = isBlankText joined := by
    rcases h with rfl | rfl
    · rfl
    · rw [isBlankText, List.all_append, isBlankText]
      exact Bool.and_true _
  have hkept : dropEndWhile (· = '\n') joined' = dropEndWhile (· = '\n') joined := by
    rcases h with rfl | rfl
    · rfl
    · rw [dropEndWhile_append_singleton, if_pos (by decide)]
  have hcore : s.uncommented.core = s.core := by
    rw [Segment.core, Segment.trimmed_uncommented, Segment.core]
  have hsentinel : s.uncommented.sentinel = s.sentinel := rfl
  rw [join, join, hblank, hkept, hcore, hsentinel]
  rcases lineEnd_uncommented s with hend | ⟨hend, hend'⟩
  · exact Or.inl (by rw [hend])
  · exact Or.inr (by rw [hend, hend', List.append_nil])

theorem foldl_join_uncommented (segments : List Segment) {joined joined' : Text}
    (h : joined' = joined ∨ joined' = joined ++ ['\n']) :
    (segments.map Segment.uncommented).foldl join joined' = segments.foldl join joined ∨
      (segments.map Segment.uncommented).foldl join joined' =
        segments.foldl join joined ++ ['\n'] := by
  induction segments generalizing joined joined' with
  | nil => exact h
  | cons s segments ih => exact ih (join_uncommented h s)

theorem startOf_uncommented (segments : List Segment) :
    startOf (segments.map Segment.uncommented) = startOf segments := by
  cases segments <;> rfl

theorem SameCode.uncommented (segments : List Segment) :
    (ofSegments segments).SameCode (ofSegments (segments.map Segment.uncommented)) where
  joined := foldl_join_uncommented segments (Or.inl rfl)
  length := by simp [ofSegments]
  lineNumber := startOf_uncommented segments

end LogicalLine

inductive Reading.SameCode : Reading → Reading → Prop
  | line {l l' : LogicalLine} (h : l.SameCode l') : SameCode (.line l) (.line l')
  | failure (e : ReadError) : SameCode (.failure e) (.failure e)
  | done : SameCode .done .done

structure Lexer.Step.SameCode (a b : Step) : Prop where
  reading : a.reading.SameCode b.reading
  linesRead : b.linesRead = a.linesRead
  truncated : b.truncated = a.truncated

namespace Lexer

def uncommented (l : Lexer) : Lexer :=
  { l with source := l.source.uncommented l.settings.tabWidth }

theorem uncommented_eq_respell (l : Lexer) : l.uncommented =
    l.respell l.settings.tabWidth (Text.uncommented l.settings.tabWidth) Segment.uncommented := by
  have hline : PhysicalLine.uncommented l.settings.tabWidth =
      PhysicalLine.respell (Text.uncommented l.settings.tabWidth) := by
    funext line
    cases line <;> rfl
  rw [uncommented, Source.uncommented, hline]
  rfl

theorem Step.sameCode_of_agrees {a b : Step} (h : a.Agrees LogicalLine.SameCode b) :
    a.SameCode b := by
  obtain ⟨hreading, hread, htruncated⟩ := h
  refine ⟨?_, hread, htruncated⟩
  generalize a.reading = reading, b.reading = reading' at hreading
  cases hreading with
  | line h => exact .line h
  | failure e => exact .failure e
  | done => exact .done

theorem steps_uncommented {l : Lexer} (h : l.source.IsSelfContained l.settings.tabWidth) :
    List.Forall₂ Step.SameCode l.steps l.uncommented.steps := by
  have hagrees := (isRespelling_uncommented l.settings.tabWidth).steps
    (fun segments _ ↦ LogicalLine.SameCode.uncommented segments) rfl ⟨rfl, rfl, h⟩
  rw [uncommented_eq_respell]
  exact hagrees.imp fun _ _ ↦ Step.sameCode_of_agrees

end Lexer

namespace PhysicalLine

theorem endsWith_of_mem_cutLines {t line : Text} (ht : t = [] ∨ t.getLast? = some '\n')
    (h : line ∈ cutLines '\n' t) : endsWith '\n' line := by
  induction t using cut_induction (· == '\n') with
  | whole t hnewline =>
    rcases ht with rfl | ht
    · cases h
    · simpa using hnewline '\n' (List.mem_of_getLast? ht)
  | cut t a rest hnewline ha ih =>
    obtain rfl := eq_of_beq ha
    rw [cutLines_append_cons hnewline] at h
    rcases List.mem_cons.mp h with rfl | h
    · exact endsWith_concat t '\n'
    · refine ih ?_ h
      cases rest with
      | nil => exact Or.inl rfl
      | cons b rest => simpa [List.getLast?_append, List.getLast?_cons] using ht

theorem cutLines_flatMap {lines : List Text} {f : Text → Text}
    (h : ∀ line ∈ lines, ∃ body, '\n' ∉ body ∧ f line = body ++ ['\n']) :
    cutLines '\n' (lines.flatMap f) = lines.map f := by
  induction lines with
  | nil => rfl
  | cons line lines ih =>
    obtain ⟨⟨body, hbody, hline⟩, hlines⟩ := List.forall_mem_cons.mp h
    have hnewline : ∀ c ∈ body, (c == '\n') = false := by
      intro c hc
      simpa using ne_of_mem_of_not_mem hc hbody
    rw [List.flatMap_cons, hline, List.append_assoc, List.singleton_append,
      cutLines_append_cons hnewline, ih hlines, List.map_cons, hline]

end PhysicalLine

namespace Lexer

theorem withoutComments_of_width {t : Text} {width width' : Nat} (hw : 0 < width)
    (hw' : 0 < width')
    (h : ∀ line ∈ PhysicalLine.cutLines '\n' t, Text.IsSelfContained width line) :
    (∀ line ∈ PhysicalLine.cutLines '\n' t, Text.IsSelfContained width' line) ∧
      withoutComments width' t = withoutComments width t := by
  constructor
  · intro line hline
    exact ((h line hline).of_width hw hw').1
  · rw [withoutComments, List.flatMap_def, withoutComments, List.flatMap_def]
    congr 1
    apply List.map_congr_left
    intro line hline
    exact ((h line hline).of_width hw hw').2

theorem steps_withoutComments_tabWidth {t : Text} {s : Settings} (filename : Text)
    (ht : t = [] ∨ t.getLast? = some '\n')
    (h : ∀ line ∈ PhysicalLine.cutLines '\n' t, Text.IsSelfContained s.tabWidth line) :
    List.Forall₂ Step.SameCode (ofText t s filename).steps
      (ofText (withoutComments s.tabWidth t) s filename).steps := by
  have hlines : ∀ line ∈ PhysicalLine.cutLines '\n' t, IsLine line ∧ endsWith '\n' line := by
    intro line hline
    constructor
    · exact PhysicalLine.not_mem_dropLast_of_mem_cutLines hline
    · exact PhysicalLine.endsWith_of_mem_cutLines ht hline
  have hcut : PhysicalLine.cutLines '\n' (withoutComments s.tabWidth t) =
      (PhysicalLine.cutLines '\n' t).map (Text.uncommented s.tabWidth) := by
    apply PhysicalLine.cutLines_flatMap
    intro line hline
    exact ((h line hline).isUncommented (hlines line hline).1 (hlines line hline).2).2
  have huncommented : ofText (withoutComments s.tabWidth t) s filename =
      (ofText t s filename).uncommented := by
    rw [uncommented_eq_respell]
    exact ofText_respell hcut Segment.uncommented s filename s.tabWidth
  rw [huncommented]
  apply steps_uncommented
  refine ⟨fun line hline ↦ ?_, by simp [ofText, ofLines, Source.ofLines]⟩
  have hmem : line ∈ PhysicalLine.cutLines '\n' t := by
    simpa [ofText, ofLines, Source.ofLines, PhysicalLine.ofText] using hline
  exact ⟨h line hmem, hlines line hmem⟩

/-- Comments never influence code, if they are no directives and no literal or span goes on behind a
line: without them a text is lexed to the same logical lines, numbered alike and made up of as many
segments, with the same code but for a newline behind it, and to the same errors. Where the comments
are can be found with tabs of any width, unless tabs have none. -/
theorem steps_withoutComments (t : Text) (s : Settings) (filename : Text) (width : Nat)
    (hwidth : width = s.tabWidth ∨ 0 < width ∧ 0 < s.tabWidth)
    (ht : t = [] ∨ t.getLast? = some '\n')
    (h : ∀ line ∈ PhysicalLine.cutLines '\n' t, Text.IsSelfContained width line) :
    List.Forall₂ Step.SameCode (ofText t s filename).steps
      (ofText (withoutComments width t) s filename).steps := by
  rcases hwidth with rfl | ⟨hw, hw'⟩
  · exact steps_withoutComments_tabWidth filename ht h
  · obtain ⟨h', heq⟩ := withoutComments_of_width hw hw' h
    rw [← heq]
    exact steps_withoutComments_tabWidth filename ht h'

/-- A statement that goes on behind comments and semicolons, with what would open or close something in
comments only, a sentinel, and a statement that is too long. -/
def commentedText : Text :=
  "x = 'a!' &! b' & ; \"\n\t# #\x7b &\n ! c &\n& + 1; y! z\n!$ p &!!\nq &\nr &\ns\n".toList

theorem steps_withoutComments_commentedText :
    (∀ line ∈ PhysicalLine.cutLines '\n' commentedText, Text.IsSelfContained 1 line) ∧
      List.Forall₂ Step.SameCode (ofText commentedText ⟨8, 4, false⟩ unnamed).steps
        (ofText "x = 'a!' &\n\t\n \n& + 1; y\n!$ p &\nq &\nr &\ns\n".toList
          ⟨8, 4, false⟩ unnamed).steps := by
  have h : ∀ line ∈ PhysicalLine.cutLines '\n' commentedText, Text.IsSelfContained 1 line := by
    decide
  exact ⟨h, steps_withoutComments commentedText ⟨8, 4, false⟩ unnamed 1
    (Or.inr ⟨by decide, by decide⟩) (Or.inr (by decide)) h⟩

end Lexer

end FreeForm
