import FreeForm.Proofs.Scanning

namespace FreeForm

namespace Placed

def shift (k : Nat) (item : Placed) : Placed :=
  (item.1 + k, item.2)

end Placed

def Visit.shift (k : Nat) (v : Visit) : Visit :=
  ⟨v.item.shift k, v.after⟩

namespace Text

theorem indices_append (offset : Nat) (s t : Text) :
    indices offset (s ++ t) = indices offset s ++ indices (offset + byteLength s) t := by
  induction s generalizing offset with
  | nil => rfl
  | cons c s ih =>
    rw [List.cons_append, indices, indices, ih, byteLength_cons, Nat.add_assoc]
    rfl

theorem indices_shift (k offset : Nat) (t : Text) :
    indices (offset + k) t = (indices offset t).map (Placed.shift k) := by
  induction t generalizing offset with
  | nil => rfl
  | cons c t ih =>
    have hk : offset + k + c.utf8Size = offset + c.utf8Size + k := Nat.add_right_comm _ _ _
    rw [indices, indices, hk, ih, List.map_cons]
    rfl

end Text

namespace Region

theorem region_of_mem_trace {r : Region} {closing : Bool} {t ahead : Text}
    (h : (walk r closing t ahead).1 ≠ .comment) {s : Step} (hs : s ∈ trace r closing t ahead) :
    s.region ≠ .comment := by
  induction t generalizing r closing with
  | nil => cases hs
  | cons c t ih =>
    rw [walk] at h
    rcases List.mem_cons.mp hs with rfl | hs
    · exact walk_ne_comment h
    · exact ih h hs

end Region

namespace Scanner

open Region

theorem restart_eq_resume (s : Scanner) (line : Text) (view : View) :
    s.restart line view = resume line view s.carried := by
  rw [restart, resume, resume, carried, carried_carried]

section

variable {view : View} {r : Region} {a : Text}
variable (ha : ∀ c ∈ a.getLast?, Marker.needsNext c = false)
variable (hne : (walk r.carried false a []).1 ≠ .comment)

theorem halts_of_mem_passes (hne : (walk r.carried false a []).1 ≠ .comment) :
    ∀ p ∈ (resume a view r).passes, view.halts p.2 = false := by
  intro p hp
  have hmem : p.2 ∈ trace r.carried false a [] := (List.of_mem_zip hp).2
  simp [View.halts, region_of_mem_trace hne hmem]

include ha

theorem walk_append_of_getLast (b : Text) : (walk r.carried false (a ++ b) []).1 =
    (walk (walk r.carried false a []).1 false b []).1 := by
  have hclosing := walk_closing_nil r.carried a
  rw [walk_append, (walk_sights_of_getLast ha (b ++ []) []).1, hclosing]

include hne

/-- The second part is passed as if it stood alone, in the region where the first part ends. -/
theorem passes_append (b : Text) : (resume (a ++ b) view r).passes =
    (resume a view r).passes ++
      (resume b view (walk r.carried false a []).1).passes.map
        (Prod.map (Placed.shift a.byteLength) id) := by
  have hclosing := walk_closing_nil r.carried a
  have hwalk : walk r.carried false a (b ++ []) = walk r.carried false a [] :=
    (walk_sights_of_getLast ha _ _).1
  have hshift := Text.indices_shift a.byteLength 0 b
  have hcarried := carried_of_ne_comment hne
  simp only [passes, resume]
  -- The first part is read as if nothing came behind it: its last character looks no further.
  rw [Text.indices_append, trace_append, trace_of_getLast ha (b ++ []) [], hwalk, hclosing, hcarried,
    hshift, List.zip_append (by simp), List.zip_map_left]

theorem shown_append (b : Text) : (resume (a ++ b) view r).shown =
    (resume a view r).shown ++
      (resume b view (walk r.carried false a []).1).shown.map (Visit.shift a.byteLength) := by
  have hhalts : ∀ p ∈ (resume a view r).passes, (!view.halts p.2) = true := by
    intro p hp
    rw [halts_of_mem_passes hne p hp, Bool.not_false]
  have hfront := List.takeWhile_eq_self_iff.mpr hhalts
  simp only [shown, view_resume]
  rw [passes_append ha hne, List.takeWhile_append_of_pos hhalts, hfront, List.takeWhile_map,
    List.filter_append, List.map_append, List.filter_map, List.map_map, List.map_map]
  rfl

theorem haltedAt_append (b : Text) : (resume (a ++ b) view r).drain.2.haltedAt =
    (resume b view (walk r.carried false a []).1).drain.2.haltedAt.map (· + a.byteLength) := by
  have hfront : (resume a view r).passes.find? (fun p ↦ view.halts p.2) = none := by
    refine List.find?_eq_none.mpr fun p hp ↦ ?_
    rw [halts_of_mem_passes hne p hp]
    exact Bool.false_ne_true
  rw [haltedAt_drain (haltedAt_resume _ _ _), haltedAt_drain (haltedAt_resume _ _ _), view_resume,
    view_resume, passes_append ha hne, List.find?_append, hfront, Option.none_or, List.find?_map,
    Option.map_map, Option.map_map]
  rfl

end

/-- A scan over two texts shows what a scan over the first shows, and what a scan over the second
shows that starts in the region carried over: all that is needed is that the first text does not end
in a comment, nor with a character that has to be read together with the next one. -/
theorem yields_append (view : View) (r : Region) {a : Text}
    (ha : ∀ c ∈ a.getLast?, c ∉ ['#', '$', '@', '}']) (b : Text) :
    ∃ (shown : List Visit) (last : Scanner), (resume a view r).Yields shown last ∧
      (last.region ≠ .comment → ∃ (shown' : List Visit) (last' whole : Scanner),
        (resume b view last.carried).Yields shown' last' ∧
          (last.restart b view).Yields shown' last' ∧
          (resume (a ++ b) view r).Yields (shown ++ shown'.map (Visit.shift a.byteLength)) whole ∧
          whole.region = last'.region ∧
          whole.haltedAt = last'.haltedAt.map (· + a.byteLength)) := by
  have hnext : ∀ c ∈ a.getLast?, Marker.needsNext c = false := by
    intro c hc
    simpa [Marker.needsNext, Marker.isSigil, and_assoc] using ha c hc
  refine ⟨_, _, yields_shown (haltedAt_resume a view r), fun hne ↦ ?_⟩
  have hcarried : (resume a view r).drain.2.carried = (walk r.carried false a []).1 := by
    rw [carried, carried_of_ne_comment hne, region_drain_resume]
  rw [region_drain_resume] at hne
  have hsecond := yields_shown (haltedAt_resume b view (walk r.carried false a []).1)
  have hwhole := yields_shown (haltedAt_resume (a ++ b) view r)
  rw [shown_append hnext hne] at hwhole
  rw [restart_eq_resume, hcarried]
  refine ⟨_, _, _, hsecond, hsecond, hwhole, ?_, haltedAt_append hnext hne b⟩
  rw [region_drain_resume, region_drain_resume, walk_append_of_getLast hnext,
    carried_of_ne_comment hne]

theorem yields_append_openLiteral :
    (∀ c ∈ "f('\x7d$ + 'it;&\n".toList.getLast?, c ∉ ['#', '$', '@', '}']) ∧
      ∃ (shown : List Visit) (last : Scanner),
        (resume "f('\x7d$ + 'it;&\n".toList ⟨true, true⟩ (.span '$')).Yields shown last ∧
          last.region = .literal '\'' ∧ ∃ (shown' : List Visit) (last' whole : Scanner),
            (resume "!s' ! c".toList ⟨true, true⟩ (.literal '\'')).Yields shown' last' ∧
              (last.restart "!s' ! c".toList ⟨true, true⟩).Yields shown' last' ∧
              (resume "f('\x7d$ + 'it;&\n!s' ! c".toList ⟨true, true⟩ (.span '$')).Yields
                (shown ++ shown'.map (Visit.shift 14)) whole ∧
              whole.region = last'.region ∧ whole.haltedAt = last'.haltedAt.map (· + 14) := by
  have ha : ∀ c ∈ "f('\x7d$ + 'it;&\n".toList.getLast?, c ∉ ['#', '$', '@', '}'] := by simp
  obtain ⟨shown, last, h, hb⟩ := yields_append ⟨true, true⟩ (.span '$') ha "!s' ! c".toList
  obtain ⟨-, rfl⟩ := h.unique (yields_shown rfl)
  exact ⟨ha, _, _, h, rfl, hb (by decide)⟩

end Scanner

end FreeForm
