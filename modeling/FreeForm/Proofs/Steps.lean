import FreeForm.Lexer
import FreeForm.Proofs.Cutting

namespace FreeForm

namespace Reading

def lines : Reading → List Text
  | line l => l.lines
  | failure _ | done => []

def isFailure : Reading → Bool
  | failure _ => true
  | line _ | done => false

end Reading

namespace Lexer

structure Step where
  reading : Reading
  linesRead : Nat
  truncated : Bool
  deriving DecidableEq, Repr

def step (l : Lexer) : Step :=
  ⟨l.next.1, l.next.2.linesRead, l.next.2.truncated⟩

/-- The steps up to and with the end. -/
def steps (l : Lexer) : List Step :=
  l.run.map fun (reading, l) ↦ ⟨reading, l.linesRead, l.truncated⟩

theorem steps_eq (l : Lexer) :
    l.steps = l.step :: if l.next.1 = .done then [] else l.next.2.steps := by
  rw [steps, run]
  by_cases h : l.next.1 = .done <;> simp [h, step, steps]

@[elab_as_elim]
theorem steps_induction {motive : Lexer → Prop} (done : ∀ l, l.next.1 = .done → motive l)
    (more : ∀ l, l.next.1 ≠ .done → motive l.next.2 → motive l) (l : Lexer) : motive l := by
  induction l using run.induct with
  | case1 l _ h => exact done l h
  | case2 l _ h ih => exact more l h ih

theorem step_mem_steps (l : Lexer) : l.step ∈ l.steps := by
  rw [steps_eq]
  exact List.mem_cons_self

theorem steps_ne_nil (l : Lexer) : l.steps ≠ [] := by
  simp [steps_eq l]

/-- A call looks at nothing but what it gathers. -/
theorem steps_eq_of_gather_eq {l l' : Lexer} (hs : l.settings = l'.settings)
    (hf : l.filename = l'.filename) (hg : l.gather = l'.gather) : l.steps = l'.steps := by
  obtain ⟨settings, filename, source, truncated⟩ := l
  obtain ⟨settings', filename', source', truncated'⟩ := l'
  obtain rfl : settings = settings' := hs
  obtain rfl : filename = filename' := hf
  have hn : next ⟨settings, filename, source, truncated⟩ =
      next ⟨settings, filename, source', truncated'⟩ := by
    simp only [next, hg]
    rfl
  rw [steps_eq, steps_eq ⟨settings, filename, source', truncated'⟩, step, step, hn]

def afterCalls (l : Lexer) : Nat → Lexer
  | 0 => l
  | n + 1 => (l.afterCalls n).next.2

theorem steps_truncated (s : Settings) (filename : Text) (source : Source) (b b' : Bool) :
    steps ⟨s, filename, source, b⟩ = steps ⟨s, filename, source, b'⟩ :=
  steps_eq_of_gather_eq rfl rfl rfl

/-- The steps, if there are at most `n`: the recursion on `n` lets them be computed in a proof. -/
def stepsWithin : Nat → Lexer → Option (List Step)
  | 0, _ => none
  | n + 1, l =>
    if l.next.1 = .done then some [l.step] else (stepsWithin n l.next.2).map (l.step :: ·)

theorem steps_of_stepsWithin (n : Nat) {l : Lexer} {steps : List Step}
    (h : stepsWithin n l = some steps) : l.steps = steps := by
  induction n generalizing l steps with
  | zero => simp [stepsWithin] at h
  | succ n ih =>
    rw [stepsWithin] at h
    rw [steps_eq]
    split at h
    · next hd => simpa [hd] using h
    · next hd =>
      obtain ⟨rest, hrest, rfl⟩ := Option.map_eq_some_iff.mp h
      rw [if_neg hd, ih hrest]

theorem ofBytes_encode (t : Text) (s : Settings) (filename : Text) :
    ofBytes (Text.encode t) s filename = ofText t s filename := by
  rw [ofBytes, PhysicalLine.ofBytes_encode, ofText]

section

variable (s : Settings) (filename : Text) {l : Text} (hl : '\n' ∉ l)
include hl

theorem ofText_of_not_mem (hne : l ≠ []) :
    ofText l s filename = ⟨s, filename, ⟨[.text l], 0, []⟩, false⟩ := by
  rw [ofText, PhysicalLine.ofText_of_not_mem hl hne]
  rfl

theorem ofText_append_cons (rest : Text) :
    ofText (l ++ '\n' :: rest) s filename =
      ⟨s, filename, ⟨.text (l ++ ['\n']) :: PhysicalLine.ofText rest, 0, []⟩, false⟩ := by
  rw [ofText, PhysicalLine.ofText_append_cons hl]
  rfl

end

theorem step_eq_of_steps_eq {l l' : Lexer} (h : l.steps = l'.steps) : l.step = l'.step := by
  rw [steps_eq, steps_eq l'] at h
  exact (List.cons.inj h).1

theorem steps_next_of_steps_eq {l l' : Lexer} (h : l.steps = l'.steps) (hd : l.next.1 ≠ .done) :
    l.next.2.steps = l'.next.2.steps := by
  have hr : l.next.1 = l'.next.1 := congrArg Step.reading (step_eq_of_steps_eq h)
  rw [steps_eq, steps_eq l', if_neg hd, if_neg (hr ▸ hd)] at h
  exact (List.cons.inj h).2

def finalRead (l : Lexer) : Nat :=
  (l.steps.getLast l.steps_ne_nil).linesRead

theorem finalRead_of_done {l : Lexer} (h : l.next.1 = .done) :
    l.finalRead = l.next.2.linesRead := by
  have hs : l.steps = [l.step] := by rw [steps_eq, if_pos h]
  simp only [finalRead, hs, List.getLast_singleton]
  rfl

theorem finalRead_next {l : Lexer} (h : l.next.1 ≠ .done) : l.next.2.finalRead = l.finalRead := by
  have hs : l.steps = l.step :: l.next.2.steps := by rw [steps_eq, if_neg h]
  simp only [finalRead, hs, List.getLast_cons l.next.2.steps_ne_nil]

end Lexer

namespace Gathered

@[simp] theorem segments_push (s : Segment) (g : Gathered) :
    (g.push s).segments = s :: g.segments := rfl

@[simp] theorem ending_push (s : Segment) (g : Gathered) : (g.push s).ending = g.ending := rfl

@[simp] theorem source_push (s : Segment) (g : Gathered) : (g.push s).source = g.source := rfl

section

variable (tabWidth room : Nat) (c : Continuation) (r : Region) (n : Nat)
variable (unread : List PhysicalLine) (s : Segment) (queue : List Segment)

theorem gather_exhausted :
    gather tabWidth room c r ⟨[], n, []⟩ = ⟨[], .exhausted, ⟨[], n, []⟩⟩ := by
  rw [gather]
  simp [Source.supply]

theorem gather_undecodable :
    gather tabWidth room c r ⟨.undecodable :: unread, n, []⟩ =
      ⟨[], .undecodable, ⟨unread, n, []⟩⟩ := by
  rw [gather]
  simp [Source.supply]

theorem gather_tooLong :
    gather tabWidth 0 c r ⟨unread, n, s :: queue⟩ = ⟨[s], .tooLong, ⟨unread, n, queue⟩⟩ := by
  rw [gather]
  simp [Source.supply]

variable {c s} in
theorem gather_complete (h : (c.after s).isOpen = false) :
    gather tabWidth (room + 1) c r ⟨unread, n, s :: queue⟩ =
      ⟨[s], .complete, ⟨unread, n, queue⟩⟩ := by
  rw [gather]
  simp [Source.supply, h]

variable {c s} in
theorem gather_more (h : (c.after s).isOpen) :
    gather tabWidth (room + 1) c r ⟨unread, n, s :: queue⟩ =
      (gather tabWidth room (c.after s) r ⟨unread, n, queue⟩).push s := by
  rw [gather]
  simp [Source.supply, h]

/-- Reading a physical line is to let its segments wait. -/
theorem gather_text (t : Text) :
    gather tabWidth room c r ⟨.text t :: unread, n, []⟩ =
      gather tabWidth room c
        (Segment.ofLine (Text.expandTabs tabWidth t) (n + 1) c.directive r).2
        ⟨unread, n + 1,
          (Segment.ofLine (Text.expandTabs tabWidth t) (n + 1) c.directive r).1⟩ := by
  obtain ⟨s, queue, hq⟩ := List.exists_cons_of_ne_nil
    (Segment.ofLine_ne_nil (Text.expandTabs tabWidth t) (n + 1) c.directive r)
  obtain ⟨segments, r', h⟩ : ∃ segments r',
      Segment.ofLine (Text.expandTabs tabWidth t) (n + 1) c.directive r = (segments, r') :=
    ⟨_, _, rfl⟩
  rw [h] at hq ⊢
  obtain rfl : segments = s :: queue := hq
  rw [gather, gather]
  simp [Source.supply, h]

end

/-- Gathering stops at the end of the source or at a line that is not UTF-8, lets the segments of a
line wait, or takes one that waits. -/
@[elab_as_elim]
theorem gather_induction (tabWidth : Nat) {motive : Nat → Continuation → Region → Source → Prop}
    (exhausted : ∀ room c r n, motive room c r ⟨[], n, []⟩)
    (undecodable : ∀ room c r unread n, motive room c r ⟨.undecodable :: unread, n, []⟩)
    (text : ∀ room c r t unread n,
      motive room c (Segment.ofLine (Text.expandTabs tabWidth t) (n + 1) c.directive r).2
        ⟨unread, n + 1, (Segment.ofLine (Text.expandTabs tabWidth t) (n + 1) c.directive r).1⟩ →
      motive room c r ⟨.text t :: unread, n, []⟩)
    (tooLong : ∀ c r unread n s queue, motive 0 c r ⟨unread, n, s :: queue⟩)
    (complete : ∀ room c r unread n s queue, (c.after s).isOpen = false →
      motive (room + 1) c r ⟨unread, n, s :: queue⟩)
    (more : ∀ room c r unread n s queue, (c.after s).isOpen →
      motive room (c.after s) r ⟨unread, n, queue⟩ → motive (room + 1) c r ⟨unread, n, s :: queue⟩)
    (room : Nat) (c : Continuation) (r : Region) (source : Source) : motive room c r source := by
  -- A line that is read leaves the room as it is, so segments that wait come first.
  have reading {room : Nat}
      (waiting : ∀ c r unread n s queue, motive room c r ⟨unread, n, s :: queue⟩)
      (c : Continuation) (r : Region) (source : Source) : motive room c r source := by
    obtain ⟨unread, n, queue⟩ := source
    rcases queue with _ | ⟨s, queue⟩
    · rcases unread with _ | ⟨t | _, unread⟩
      · exact exhausted room c r n
      · refine text room c r t unread n ?_
        obtain ⟨s, queue, hq⟩ := List.exists_cons_of_ne_nil
          (Segment.ofLine_ne_nil (Text.expandTabs tabWidth t) (n + 1) c.directive r)
        rw [hq]
        exact waiting c _ unread (n + 1) s queue
      · exact undecodable room c r unread n
    · exact waiting c r unread n s queue
  induction room generalizing c r source with
  | zero => exact reading tooLong c r source
  | succ room ih =>
    refine reading (fun c r unread n s queue ↦ ?_) c r source
    by_cases h : (c.after s).isOpen
    · exact more room c r unread n s queue h (ih _ _ _)
    · exact complete room c r unread n s queue (by simpa using h)

variable {tabWidth room : Nat} {c : Continuation} {r : Region} {source : Source}

theorem gather_region (r r' : Region) (n : Nat) (queue : List Segment) :
    gather tabWidth room c r ⟨[], n, queue⟩ = gather tabWidth room c r' ⟨[], n, queue⟩ := by
  induction queue generalizing room c with
  | nil => rw [gather_exhausted, gather_exhausted]
  | cons s queue ih =>
    cases room with
    | zero => rw [gather_tooLong, gather_tooLong]
    | succ room =>
      cases h : (c.after s).isOpen with
      | true => rw [gather_more _ _ _ _ _ _ h, gather_more _ _ _ _ _ _ h, ih]
      | false => rw [gather_complete _ _ _ _ _ _ h, gather_complete _ _ _ _ _ _ h]

theorem source_gather_of_exhausted {n : Nat} {queue : List Segment}
    (h : (gather tabWidth room c r ⟨[], n, queue⟩).ending = .exhausted) (r' : Region)
    (unread : List PhysicalLine) :
    (gather tabWidth room c r' ⟨unread, n, queue⟩).source =
      (gather tabWidth (room - queue.length) (queue.foldl Continuation.after c) r'
        ⟨unread, n, []⟩).source := by
  induction queue generalizing room c with
  | nil => rfl
  | cons s queue ih =>
    cases room with
    | zero => simp [gather_tooLong] at h
    | succ room =>
      cases hc : (c.after s).isOpen with
      | false => simp [gather_complete _ _ _ _ _ _ hc] at h
      | true =>
        rw [gather_more _ _ _ _ _ _ hc] at h ⊢
        rw [source_push, ih h, List.length_cons, Nat.add_sub_add_right, List.foldl_cons]

theorem source_gather_line {t : Text} {n : Nat} {first : Segment} {rest : List Segment}
    (hl : (Segment.ofLine (Text.expandTabs tabWidth t) (n + 1) c.directive r).1 = first :: rest)
    (hc : (c.after first).isOpen = false) (unread : List PhysicalLine) :
    (gather tabWidth room c r ⟨.text t :: unread, n, []⟩).source = ⟨unread, n + 1, rest⟩ := by
  rw [gather_text, hl]
  cases room with
  | zero => rw [gather_tooLong]
  | succ room => rw [gather_complete _ _ _ _ _ _ hc]

theorem segments_append_queue (n : Nat) (queue : List Segment) :
    (gather tabWidth room c r ⟨[], n, queue⟩).segments ++
      (gather tabWidth room c r ⟨[], n, queue⟩).source.queue = queue := by
  induction queue generalizing room c with
  | nil => simp [gather_exhausted]
  | cons s queue ih =>
    cases room with
    | zero => simp [gather_tooLong]
    | succ room =>
      cases h : (c.after s).isOpen with
      | true => simp [gather_more _ _ _ _ _ _ h, ih]
      | false => simp [gather_complete _ _ _ _ _ _ h]

theorem isOpen_of_complete {n : Nat} {segment : Segment}
    (h : (gather tabWidth room c r ⟨[], n, [segment]⟩).ending = .complete) :
    (c.after segment).isOpen = false := by
  cases room with
  | zero => simp [gather_tooLong] at h
  | succ room =>
    cases hc : (c.after segment).isOpen with
    | false => rfl
    | true => simp [gather_more _ _ _ _ _ _ hc, gather_exhausted] at h

theorem ending_ne_noSegment : (gather tabWidth room c r source).ending ≠ .noSegment := by
  induction room, c, r, source using gather_induction tabWidth with
  | exhausted => simp [gather_exhausted]
  | undecodable => simp [gather_undecodable]
  | text room c r t unread n ih => rwa [gather_text]
  | tooLong => simp [gather_tooLong]
  | complete room c r unread n s queue h => simp [gather_complete _ _ _ _ _ _ h]
  | more room c r unread n s queue h ih => rwa [gather_more _ _ _ _ _ _ h, ending_push]

theorem segments_ne_nil (h : (gather tabWidth room c r source).ending ≠ .exhausted)
    (h' : (gather tabWidth room c r source).ending ≠ .undecodable) :
    (gather tabWidth room c r source).segments ≠ [] := by
  induction room, c, r, source using gather_induction tabWidth with
  | exhausted => simp [gather_exhausted] at h
  | undecodable => simp [gather_undecodable] at h'
  | text room c r t unread n ih =>
    rw [gather_text] at h h' ⊢
    exact ih h h'
  | tooLong => simp [gather_tooLong]
  | complete room c r unread n s queue hc => simp [gather_complete _ _ _ _ _ _ hc]
  | more room c r unread n s queue hc _ => simp [gather_more _ _ _ _ _ _ hc]

theorem source_of_exhausted (h : (gather tabWidth room c r source).ending = .exhausted) :
    (gather tabWidth room c r source).source =
      ⟨[], (gather tabWidth room c r source).source.linesRead, []⟩ := by
  induction room, c, r, source using gather_induction tabWidth with
  | exhausted => simp [gather_exhausted]
  | undecodable => simp [gather_undecodable] at h
  | text room c r t unread n ih =>
    rw [gather_text] at h ⊢
    exact ih h
  | tooLong => simp [gather_tooLong] at h
  | complete room c r unread n s queue hc => simp [gather_complete _ _ _ _ _ _ hc] at h
  | more room c r unread n s queue hc ih =>
    rw [gather_more _ _ _ _ _ _ hc] at h ⊢
    exact ih h

theorem source_eq_of_segments_eq_nil (he : (gather tabWidth room c r source).ending = .exhausted)
    (hs : (gather tabWidth room c r source).segments = []) :
    source = ⟨[], source.linesRead, []⟩ := by
  induction room, c, r, source using gather_induction tabWidth with
  | exhausted => rfl
  | undecodable => simp [gather_undecodable] at he
  | text room c r t unread n ih =>
    rw [gather_text] at he hs
    have hq := congrArg Source.queue (ih he hs)
    exact absurd hq (Segment.ofLine_ne_nil _ _ _ _)
  | tooLong => simp [gather_tooLong] at he
  | complete room c r unread n s queue hc => simp [gather_complete _ _ _ _ _ _ hc] at he
  | more room c r unread n s queue hc => simp [gather_more _ _ _ _ _ _ hc] at hs

end Gathered

namespace Lexer

theorem done_iff_gather (l : Lexer) :
    l.next.1 = .done ↔ l.gather.ending = .exhausted ∧ l.gather.segments = [] := by
  simp only [next, readingOf]
  constructor
  · intro h
    split at h <;> simp_all
  · rintro ⟨he, hs⟩
    simp [he, hs]

theorem done_iff (l : Lexer) : l.next.1 = .done ↔ l.source = ⟨[], l.source.linesRead, []⟩ := by
  rw [done_iff_gather]
  constructor
  · rintro ⟨he, hs⟩
    exact Gathered.source_eq_of_segments_eq_nil he hs
  · intro h
    rw [gather, h, Gathered.gather_exhausted]
    simp

theorem source_next_of_done {l : Lexer} (h : l.next.1 = .done) : l.next.2.source = l.source := by
  have hs := (done_iff l).mp h
  rw [source_next, gather, hs, Gathered.gather_exhausted]

theorem segments_of_line {l : Lexer} {line : LogicalLine} (h : l.next.1 = .line line) :
    l.gather.segments ≠ [] ∧ line = .ofSegments l.gather.segments ∧
      (l.gather.ending = .complete ∨ l.gather.ending = .exhausted) := by
  have hne : l.gather.ending ≠ .exhausted → l.gather.ending ≠ .undecodable →
      l.gather.segments ≠ [] := Gathered.segments_ne_nil
  simp only [next, readingOf] at h
  split at h
  · next he => exact ⟨hne (by simp [he]) (by simp [he]), (Reading.line.inj h).symm, Or.inl he⟩
  · next he =>
    by_cases hs : l.gather.segments = []
    · simp [hs] at h
    · exact ⟨hs, by simpa [hs] using h.symm, Or.inr he⟩
  all_goals cases h

theorem gather_of_line {l : Lexer} {line : LogicalLine} (h : l.next.1 = .line line)
    (ht : l.next.2.truncated = false) :
    l.gather.ending = .complete ∧ line = .ofSegments l.gather.segments := by
  obtain ⟨hne, hline, he | he⟩ := segments_of_line h
  · exact ⟨he, hline⟩
  · simp [next, he, hne] at ht

theorem next_of_readings {l : Lexer} {line : LogicalLine}
    (h : l.steps.map Step.reading = [.line line, .done]) :
    l.next.1 = .line line ∧ l.next.2.next.1 = .done := by
  rw [steps_eq, List.map_cons] at h
  obtain ⟨hline, hrest⟩ := List.cons.inj h
  have hne : l.next.1 ≠ .done := by
    rw [show l.next.1 = .line line from hline]
    simp
  rw [if_neg hne, steps_eq, List.map_cons] at hrest
  exact ⟨hline, (List.cons.inj hrest).1⟩

theorem steps_of_gather_complete {l : Lexer} {segments : List Segment} {n : Nat}
    (h : l.gather = ⟨segments, .complete, ⟨[], n, []⟩⟩) :
    l.steps = [⟨.line (.ofSegments segments), n, false⟩, ⟨.done, n, false⟩] := by
  have hnext : l.next = (.line (.ofSegments segments),
      ⟨l.settings, l.filename, ⟨[], n, []⟩, false⟩) := by
    simp [next, readingOf, h]
  have hend : next ⟨l.settings, l.filename, ⟨[], n, []⟩, false⟩ =
      (.done, ⟨l.settings, l.filename, ⟨[], n, []⟩, false⟩) := by
    simp [next, readingOf, gather, Gathered.gather_exhausted]
  rw [steps_eq, step, hnext, if_neg (by simp), steps_eq, step, hend, if_pos rfl]
  rfl

end Lexer

end FreeForm
