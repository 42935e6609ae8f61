import FreeForm.Proofs.Sights
import Mathlib.Data.List.TakeWhile

namespace FreeForm

def Text.indices : Nat → Text → List Placed
  | _, [] => []
  | offset, c :: t => (offset, c) :: indices (offset + c.utf8Size) t

@[simp] theorem Text.length_indices (offset : Nat) (t : Text) :
    (indices offset t).length = t.length := by
  induction t generalizing offset with
  | nil => rfl
  | cons c t ih => simp [indices, ih]

theorem Text.le_of_mem_indices {offset : Nat} {t : Text} {item : Placed}
    (h : item ∈ indices offset t) : offset ≤ item.1 := by
  induction t generalizing offset with
  | nil => cases h
  | cons c t ih =>
    rcases List.mem_cons.mp h with rfl | h
    · exact Nat.le_refl _
    · exact Nat.le_trans (Nat.le_add_right _ _) (ih h)

theorem Text.nodup_indices (offset : Nat) (t : Text) : (indices offset t).Nodup := by
  induction t generalizing offset with
  | nil => exact List.nodup_nil
  | cons c t ih =>
    refine List.nodup_cons.mpr ⟨fun h ↦ ?_, ih _⟩
    have hle := le_of_mem_indices h
    have hc := c.utf8Size_pos
    simp only at hle
    omega

/-- A character that a scan shows, and the region in which the scanner stands behind it. -/
structure Visit where
  item : Placed
  after : Region

namespace Region

def isSpan : Region → Bool
  | span _ => true
  | code | literal _ | comment => false

def closesTo (before after : Region) : Bool :=
  before.isQuoted && !after.isQuoted

end Region

namespace Visit

def uncommented (visits : List Visit) : List Placed :=
  (visits.takeWhile fun v ↦ v.after ≠ .comment).map item

def commentAt? (visits : List Visit) : Option Nat :=
  (visits.find? fun v ↦ v.after = .comment).map fun v ↦ v.item.1

/-- All but what stands in a literal or span, closes one, or comes behind a brace that closes a span.
The scan stands in `before` at first, and `brace` tells that such a brace comes before. -/
def unquoted : (before : Region) → (brace : Bool) → List Visit → List Placed
  | _, _, [] => []
  | before, brace, v :: visits =>
    let others := unquoted v.after (before.isSpan && before.closesTo v.after) visits
    if v.after.isQuoted || before.closesTo v.after || brace then others else v.item :: others

end Visit

namespace View

/-- What the view leaves of `visits`, all that a scan has to show that starts in region `r`. -/
def select (r : Region) (visits : List Visit) : View → List Placed
  | ⟨false, false⟩ => visits.map Visit.item
  | ⟨true, false⟩ => Visit.uncommented visits
  | ⟨false, true⟩ => Visit.unquoted r false visits
  | ⟨true, true⟩ =>
    (Visit.unquoted r false visits).filter fun item ↦ item ∈ Visit.uncommented visits

def halts (v : View) (s : Region.Step) : Bool :=
  v.hidesComments && s.region = .comment

def hides (v : View) (s : Region.Step) : Bool :=
  v.hidesQuoted && s.quoted

end View

namespace Scanner

open Region

/-- Calls of `next?` show `visits`, and then nothing; `last` is the scanner behind them. -/
inductive Yields : Scanner → List Visit → Scanner → Prop
  | ends {s last : Scanner} (h : s.next? = (none, last)) : Yields s [] last
  | shows {s s' last : Scanner} {item : Placed} {visits : List Visit}
      (h : s.next? = (some item, s')) (hs : Yields s' visits last) :
      Yields s (⟨item, s'.region⟩ :: visits) last

def pass (s : Scanner) (c : Char) (rest : Text) : Scanner :=
  let step := s.region.step s.closing c rest
  ⟨rest, s.offset + c.utf8Size, step.region, step.closing, s.view, s.haltedAt⟩

def halt (s : Scanner) (c : Char) (rest : Text) : Scanner :=
  { s.pass c rest with haltedAt := some s.offset }

@[simp] theorem haltedAt_resume (line : Text) (view : View) (r : Region) :
    (resume line view r).haltedAt = none :=
  rfl

@[simp] theorem view_resume (line : Text) (view : View) (r : Region) :
    (resume line view r).view = view :=
  rfl

/-- The characters that are left and what a scan makes of them, whatever it hides. -/
def passes (s : Scanner) : List (Placed × Step) :=
  (Text.indices s.offset s.rest).zip (trace s.region s.closing s.rest [])

def visit (p : Placed × Step) : Visit :=
  ⟨p.1, p.2.region⟩

def shown (s : Scanner) : List Visit :=
  ((s.passes.takeWhile fun p ↦ !s.view.halts p.2).filter fun p ↦ !s.view.hides p.2).map visit

section

variable {s : Scanner} {c : Char} {t : Text}

theorem read_eq (s : Scanner) (c : Char) (rest : Text) : s.read c rest =
    if s.view.halts (s.region.step s.closing c rest) then (.halted, s.halt c rest)
    else if s.view.hides (s.region.step s.closing c rest) then (.hidden, s.pass c rest)
    else (.shown, s.pass c rest) :=
  rfl

variable (ht : s.rest = c :: t)
include ht

theorem passes_of_rest :
    s.passes = ((s.offset, c), s.region.step s.closing c t) :: (s.pass c t).passes := by
  simp [passes, ht, Text.indices, trace, pass]

theorem shown_of_rest : s.shown =
    if s.view.halts (s.region.step s.closing c t) then []
    else if s.view.hides (s.region.step s.closing c t) then (s.pass c t).shown
    else ⟨(s.offset, c), (s.pass c t).region⟩ :: (s.pass c t).shown := by
  rw [shown, passes_of_rest ht]
  by_cases hhalts : s.view.halts (s.region.step s.closing c t)
  · simp [hhalts]
  · by_cases hhides : s.view.hides (s.region.step s.closing c t)
    · simp [hhalts, hhides, shown, pass]
    · simp [hhalts, hhides, shown, pass, visit]

variable (hn : s.haltedAt = none)
include hn

theorem next?_of_rest : s.next? =
    if s.view.halts (s.region.step s.closing c t) then (none, s.halt c t)
    else if s.view.hides (s.region.step s.closing c t) then (s.pass c t).next?
    else (some (s.offset, c), s.pass c t) := by
  have hpass : (s.pass c t).haltedAt = none := hn
  rw [next?, if_neg (by simp [hn]), ht, nextIn, read_eq]
  by_cases hhalts : s.view.halts (s.region.step s.closing c t)
  · simp [hhalts]
  · by_cases hhides : s.view.hides (s.region.step s.closing c t)
    · simp only [hhalts, hhides, next?, hpass]
      rfl
    · simp [hhalts, hhides]

theorem drain_of_rest : s.drain.2 =
    if s.view.halts (s.region.step s.closing c t) then s.halt c t else (s.pass c t).drain.2 := by
  have hpass : (s.pass c t).haltedAt = none := hn
  rw [drain, if_neg (by simp [hn]), ht, drainIn, read_eq]
  by_cases hhalts : s.view.halts (s.region.step s.closing c t)
  · simp [hhalts]
  · by_cases hhides : s.view.hides (s.region.step s.closing c t)
    · simp only [hhalts, hhides, drain, hpass]
      rfl
    · simp only [hhalts, hhides, drain, hpass]
      rfl

end

variable {s last : Scanner} {visits : List Visit}

/-- A scan that has ended gives nothing for ever, and nothing about it changes. -/
theorem next?_of_next?_eq_none (h : s.next? = (none, last)) : last.next? = (none, last) := by
  by_cases hs : s.haltedAt.isSome
  · rw [next?, if_pos hs] at h
    obtain rfl : s = last := (Prod.mk.inj h).2
    rw [next?, if_pos hs]
  · have hn : s.haltedAt = none := by simpa using hs
    generalize ht : s.rest = t
    induction t generalizing s with
    | nil =>
      obtain rfl : s = last := by
        simpa [next?, hn, ht, nextIn] using h
      simp [next?, hn, ht, nextIn]
    | cons c t ih =>
      rw [next?_of_rest ht hn] at h
      split at h
      · obtain rfl : s.halt c t = last := (Prod.mk.inj h).2
        rfl
      · split at h
        · exact ih h hs hn rfl
        · cases h

theorem Yields.next?_last (h : Yields s visits last) : last.next? = (none, last) := by
  induction h with
  | ends h => exact next?_of_next?_eq_none h
  | shows _ _ ih => exact ih

theorem Yields.of_next?_eq {s' : Scanner} (hs : Yields s' visits last) (h : s.next? = s'.next?) :
    Yields s visits last := by
  cases hs with
  | ends h' => exact .ends (h.trans h')
  | shows h' hs => exact .shows (h.trans h') hs

theorem Yields.unique {s last last' : Scanner} {visits visits' : List Visit}
    (h : Yields s visits last) (h' : Yields s visits' last') : visits = visits' ∧ last = last' := by
  induction h generalizing visits' with
  | ends h =>
    cases h' with
    | ends h' => exact ⟨rfl, congrArg Prod.snd (h.symm.trans h')⟩
    | shows h' _ => cases h.symm.trans h'
  | shows h _ ih =>
    cases h' with
    | ends h' => cases h.symm.trans h'
    | shows h' hs =>
      obtain ⟨hitem, rfl⟩ := Prod.mk.inj (h.symm.trans h')
      obtain ⟨rfl, hlast⟩ := ih hs
      exact ⟨by rw [Option.some.inj hitem], hlast⟩

theorem yields_shown (hn : s.haltedAt = none) : s.Yields s.shown s.drain.2 := by
  generalize ht : s.rest = t
  induction t generalizing s with
  | nil =>
    have hs : s.shown = [] := by simp [shown, passes, ht, Text.indices]
    have hd : s.drain.2 = s := by simp [drain, hn, ht, drainIn]
    rw [hs, hd]
    exact .ends (by simp [next?, hn, ht, nextIn])
  | cons c t ih =>
    have hpass := @ih (s.pass c t) hn rfl
    have hnext := next?_of_rest ht hn
    rw [shown_of_rest ht, drain_of_rest ht hn]
    split at hnext
    · next hhalts =>
      rw [if_pos hhalts, if_pos hhalts]
      exact .ends hnext
    · next hhalts =>
      rw [if_neg hhalts, if_neg hhalts]
      split at hnext
      · next hhides =>
        -- What is hidden takes no call of its own: the call made before it is the one made behind it.
        rw [if_pos hhides]
        exact hpass.of_next?_eq hnext
      · next hhides =>
        rw [if_neg hhides]
        exact .shows hnext hpass

theorem haltedAt_drain (hn : s.haltedAt = none) :
    s.drain.2.haltedAt = (s.passes.find? fun p ↦ s.view.halts p.2).map fun p ↦ p.1.1 := by
  generalize ht : s.rest = t
  induction t generalizing s with
  | nil => simp [drain, hn, ht, drainIn, passes, Text.indices]
  | cons c t ih =>
    rw [drain_of_rest ht hn, passes_of_rest ht, List.find?_cons]
    by_cases hhalts : s.view.halts (s.region.step s.closing c t)
    · simp [hhalts, halt]
    · have hpass := @ih (s.pass c t) hn rfl
      have hview : (s.pass c t).view = s.view := rfl
      rw [hview] at hpass
      simpa [hhalts] using hpass

end Scanner

theorem filter_mem_takeWhile {α β : Type} [BEq β] [LawfulBEq β] {f : α → β} {l : List α}
    (hl : (l.map f).Nodup) (p q : α → Bool) :
    ((l.filter q).map f).filter (fun b ↦ b ∈ (l.takeWhile p).map f) =
      ((l.takeWhile p).filter q).map f := by
  have hsplit : l.takeWhile p ++ l.dropWhile p = l := List.takeWhile_append_dropWhile
  generalize l.takeWhile p = front at hsplit
  generalize l.dropWhile p = tail at hsplit
  subst hsplit
  rw [List.map_append, List.nodup_append] at hl
  have hfront : ((front.filter q).map f).filter (fun b ↦ b ∈ front.map f) =
      (front.filter q).map f := by
    refine List.filter_eq_self.mpr fun b hb ↦ ?_
    obtain ⟨a, ha, rfl⟩ := List.mem_map.mp hb
    exact decide_eq_true (List.mem_map_of_mem (List.mem_filter.mp ha).1)
  have htail : ((tail.filter q).map f).filter (fun b ↦ b ∈ front.map f) = [] := by
    refine List.filter_eq_nil_iff.mpr fun b hb hmem ↦ ?_
    obtain ⟨a, ha, rfl⟩ := List.mem_map.mp hb
    exact hl.2.2 (f a) (of_decide_eq_true hmem) (f a)
      (List.mem_map_of_mem (List.mem_filter.mp ha).1) rfl
  rw [List.filter_append, List.map_append, List.filter_append, hfront, htail, List.append_nil]

namespace Region

variable (r : Region) (closing : Bool) (c : Char) (rest : Text)

theorem step_quoted : (r.step closing c rest).quoted =
    ((r.step closing c rest).region.isQuoted || r.closesTo (r.step closing c rest).region ||
      closing) := by
  have he := effect_step r closing c rest
  generalize r.step closing c rest = s at he
  cases he with
  | closes => simp
  | _ => rfl

theorem step_closing : (r.step closing c rest).closing =
    (r.isSpan && r.closesTo (r.step closing c rest).region) := by
  have he := effect_step r closing c rest
  generalize r.step closing c rest = s at he
  cases he with
  | closes => simp [closesTo]
  | _ => rfl

end Region

namespace Scanner

variable {s : Scanner}

theorem map_fst_passes (s : Scanner) : s.passes.map Prod.fst = Text.indices s.offset s.rest :=
  List.map_fst_zip (by simp)

theorem uncommented_passes (s : Scanner) : Visit.uncommented (s.passes.map visit) =
    (s.passes.takeWhile fun p ↦ !decide (p.2.region = .comment)).map Prod.fst := by
  simp only [Visit.uncommented, List.takeWhile_map, List.map_map, decide_not]
  rfl

theorem commentAt?_passes (s : Scanner) : Visit.commentAt? (s.passes.map visit) =
    (s.passes.find? fun p ↦ p.2.region = .comment).map fun p ↦ p.1.1 := by
  simp only [Visit.commentAt?, List.find?_map, Option.map_map]
  rfl

theorem unquoted_passes (s : Scanner) : Visit.unquoted s.region s.closing (s.passes.map visit) =
    (s.passes.filter fun p ↦ !p.2.quoted).map Prod.fst := by
  generalize ht : s.rest = t
  induction t generalizing s with
  | nil => simp [passes, ht, Text.indices, Visit.unquoted]
  | cons c t ih =>
    have hpass := @ih (s.pass c t) rfl
    have hclosing := Region.step_closing s.region s.closing c t
    have hquoted := Region.step_quoted s.region s.closing c t
    rw [passes_of_rest ht, List.map_cons, Visit.unquoted, List.filter_cons]
    simp only [visit, ← hclosing, ← hquoted]
    simp only [pass] at hpass ⊢
    by_cases hq : (s.region.step s.closing c t).quoted
    · simpa [hq] using hpass
    · simpa [hq] using hpass

theorem takeWhile_halts {view : View} (h : view.hidesComments = false)
    (l : List (Placed × Region.Step)) : (l.takeWhile fun p ↦ !view.halts p.2) = l :=
  List.takeWhile_eq_self_iff.mpr (by simp [View.halts, h])

theorem filter_hides {view : View} (h : view.hidesQuoted = false)
    (l : List (Placed × Region.Step)) : (l.filter fun p ↦ !view.hides p.2) = l :=
  List.filter_eq_self.mpr (by simp [View.hides, h])

theorem shown_of_view (h : s.view = ⟨false, false⟩) : s.shown = s.passes.map visit := by
  rw [shown, takeWhile_halts (by rw [h]), filter_hides (by rw [h])]

theorem map_item_shown (s : Scanner) (hc : s.closing = false) :
    s.shown.map Visit.item = s.view.select s.region (s.passes.map visit) := by
  -- All places are different, so that a character is known by its place in either list.
  have hnodup : (s.passes.map Prod.fst).Nodup := by
    rw [map_fst_passes]
    exact Text.nodup_indices _ _
  have hunquoted := unquoted_passes s
  rw [hc] at hunquoted
  have hitem : Visit.item ∘ visit = Prod.fst := rfl
  rcases hv : s.view with ⟨_ | _, _ | _⟩
  · rw [View.select, shown_of_view hv]
  · rw [View.select, shown, takeWhile_halts (by rw [hv]), List.map_map, hitem, hunquoted]
    simp [hv, View.hides]
  · rw [View.select, shown, filter_hides (by rw [hv]), List.map_map, hitem, uncommented_passes]
    simp [hv, View.halts]
  · rw [View.select, shown, List.map_map, hitem, hunquoted, uncommented_passes,
      filter_mem_takeWhile hnodup]
    simp [hv, View.halts, View.hides]

/-- A scan that hides nothing shows the whole line, and what it shows settles every other scan of the
line: where it stops, what it shows, and in which region it ends. -/
theorem exists_yields_select (line : Text) (r : Region) :
    ∃ (visits : List Visit) (last : Scanner), (resume line ⟨false, false⟩ r).Yields visits last ∧
      visits.map Visit.item = Text.indices 0 line ∧
        ∀ view : View, ∃ (shown : List Visit) (final : Scanner),
          (resume line view r).Yields shown final ∧
            shown.map Visit.item = view.select r.carried visits ∧
            final.haltedAt = (if view.hidesComments then Visit.commentAt? visits else none) ∧
            final.region = last.region ∧ final.next? = (none, final) := by
  have hall := shown_of_view (s := resume line ⟨false, false⟩ r) rfl
  have hlast (view : View) := yields_shown (haltedAt_resume line view r)
  refine ⟨_, _, hlast _, ?_, fun view ↦ ⟨_, _, hlast view, ?_, ?_, ?_, ?_⟩⟩
  · rw [hall, List.map_map]
    exact map_fst_passes _
  · rw [hall]
    exact map_item_shown (resume line view r) rfl
  · have hpasses : (resume line view r).passes = (resume line ⟨false, false⟩ r).passes := rfl
    rw [hall, commentAt?_passes, haltedAt_drain (haltedAt_resume line view r), hpasses, view_resume]
    cases hv : view.hidesComments <;> simp [View.halts, hv]
  · rw [region_drain_resume, region_drain_resume]
  · exact (hlast view).next?_last

end Scanner

end FreeForm
