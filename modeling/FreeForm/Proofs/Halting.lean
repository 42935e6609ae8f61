import FreeForm.Proofs.Marks
import FreeForm.Proofs.Offsets

namespace FreeForm

open Text

namespace Region

variable {r : Region} {closing : Bool} {t before mark : Text}

theorem HaltsAt.append_left {front : Text} (h : HaltsAt .code false before mark)
    (hfront : r.walk closing front (before ++ mark) = (.code, false)) :
    HaltsAt r closing (front ++ before) mark :=
  ⟨by rw [walk_append, hfront, h.walk], h.opener, h.endsCode⟩

theorem haltsAt_of_splitMark (hr : r ≠ .comment)
    (h : Statement.splitMark r closing t = some (before, mark)) : HaltsAt r closing before mark := by
  induction t generalizing r closing before with
  | nil => cases h
  | cons c t ih =>
    have he := effect_step r closing c t
    have hregion := @step_of_region_eq_comment r closing c t hr
    rw [Statement.splitMark] at h
    split at h
    · next hmark =>
      obtain ⟨rfl, rfl⟩ := Prod.mk.inj (Option.some.inj h)
      obtain ⟨hquoted, hends⟩ : (r.step closing c t).quoted = false ∧
          Marker.endsCode (Marker.window (c :: t)) := by
        simpa using hmark
      generalize r.step closing c t = s at he hquoted
      cases he with
      | opensComment ho => exact ⟨rfl, ho, hends⟩
      | inCode _ hn => exact absurd hends (by simp [hn])
      | inComment => exact absurd rfl hr
      | _ => cases hquoted
    · next hmark =>
      obtain ⟨⟨behind, mark'⟩, hsplit, heq⟩ := Option.map_eq_some_iff.mp h
      obtain ⟨rfl, rfl⟩ := Prod.mk.inj heq
      have hne : (r.step closing c t).region ≠ .comment := by
        intro hc
        obtain ⟨-, -, -, hends, hs⟩ := hregion hc
        simp [hs, hends] at hmark
      have hbehind := ih hne hsplit
      rw [← Statement.append_of_splitMark hsplit] at hbehind
      exact ⟨hbehind.walk, hbehind.opener, hbehind.endsCode⟩

theorem splitMark_eq_some_iff (hr : r ≠ .comment) :
    Statement.splitMark r closing t = some (before, mark) ↔
      t = before ++ mark ∧ HaltsAt r closing before mark := by
  constructor
  · intro h
    exact ⟨(Statement.append_of_splitMark h).symm, haltsAt_of_splitMark hr h⟩
  · rintro ⟨rfl, h⟩
    exact Statement.splitMark_of_haltsAt h

/-- Behind a text after which the scan stands in code, a mark is found from there as it is from the
start. -/
theorem exists_splitMark_iff {front : Text}
    (hfront : r.walk closing front t = (.code, false)) :
    (∃ before, Statement.splitMark .code false t = some (before, mark)) ↔
      ∃ before, front ++ t = before ++ mark ∧ HaltsAt r closing before mark := by
  constructor
  · rintro ⟨before, h⟩
    obtain ⟨rfl, h'⟩ := (splitMark_eq_some_iff (by simp)).mp h
    exact ⟨front ++ before, (List.append_assoc _ _ _).symm, h'.append_left hfront⟩
  · rintro ⟨before, heq, h⟩
    -- The scan ends in a comment, from `front` on as well: so there is a mark, and only one.
    have hwalk : (walk .code false t []).1 = .comment := by
      have hregion := h.region
      rwa [← heq, walk_append, List.append_nil, hfront] at hregion
    obtain ⟨⟨behind, mark'⟩, hsplit⟩ := Option.ne_none_iff_exists'.mp fun hnone ↦
      (Statement.splitMark_eq_none_iff (by simp) false t).mp hnone hwalk
    obtain ⟨rfl, h'⟩ := (splitMark_eq_some_iff (by simp)).mp hsplit
    rw [← List.append_assoc] at heq
    obtain ⟨-, rfl⟩ := (h'.append_left hfront).unique h heq
    exact ⟨behind, hsplit⟩

end Region

namespace Scanner

open Region

variable {t part : Text} {r : Region}

theorem exists_of_haltedAt {offset : Nat} (h : (resume t ⟨true, true⟩ r).drain.2.haltedAt = some offset) :
    ∃ before mark, t = before ++ mark ∧ offset = byteLength before ∧ HaltsAt r.carried false before mark := by
  obtain ⟨before, mark, hrest, hoffset, hmark⟩ := exists_haltsAt (s := resume t ⟨true, true⟩ r) rfl
    r.carried_ne_comment rfl h
  exact ⟨before, mark, hrest, hoffset.trans (Nat.zero_add _), hmark⟩

theorem haltedAt_resume_iff : (∃ offset, (resume t ⟨true, true⟩ r).drain.2.haltedAt = some offset ∧
      fromByte? t offset = some part) ↔
    ∃ before, t = before ++ part ∧ HaltsAt r.carried false before part := by
  constructor
  · rintro ⟨offset, hhalted, hpart⟩
    obtain ⟨before, mark, rfl, rfl, h⟩ := exists_of_haltedAt hhalted
    rw [fromByte?_append] at hpart
    obtain rfl := Option.some.inj hpart
    exact ⟨before, rfl, h⟩
  · rintro ⟨before, rfl, h⟩
    exact ⟨byteLength before, haltedAt_resume_of_haltsAt h, fromByte?_append before part⟩

/-- Where the scan starts that finds the comment of a line: in code, if the line would show nothing to a
scan that starts in region `r`. -/
def commentStart (t : Text) (r : Region) : Region :=
  if (resume t ⟨true, true⟩ r).drain.1.isEmpty then .code else r

theorem commentStart_of_hidden (h : ∀ a ∈ sights r.carried false t [], a.2 = false) :
    commentStart t r = .code := by
  rw [commentStart, drain_resume_eq_placesShown, (placesShown_eq_nil_iff 0).mpr h]
  rfl

theorem commentStart_of_shown (h : ∃ a ∈ sights r.carried false t [], a.2 = true) :
    commentStart t r = r := by
  have hne : placesShown 0 (sights r.carried false t []) ≠ [] := by
    intro hnil
    obtain ⟨a, ha, hshown⟩ := h
    rw [(placesShown_eq_nil_iff 0).mp hnil a ha] at hshown
    cases hshown
  rw [commentStart, drain_resume_eq_placesShown, List.isEmpty_eq_false_iff.mpr hne]
  rfl

end Scanner

namespace Statement

open Region

variable {part : Text}

/-- Only what is hidden at the end of a line can hold its comment. -/
theorem exists_comment_ofSights_iff {front tail : List Sight}
    (hfront : ∀ a ∈ front.getLast?, a.2 = true) (htail : ∀ a ∈ tail, a.2 = false) :
    (part ≠ [] ∧ ∃ s ∈ ofSights (front ++ tail), s.comment = part) ↔
      ∃ before, splitMark .code false (tail.map Prod.fst) = some (before, part) := by
  induction front using cut_induction cutsBehind with
  | whole front h =>
    have hcuts : ∀ a ∈ front ++ tail, cutsBehind a = false :=
      List.forall_mem_append.mpr ⟨h, fun a ha ↦ by simp [cutsBehind, htail a ha]⟩
    rw [ofSights_of_forall hcuts, ofFinal_append hfront htail]
    cases hm : splitMark .code false (tail.map Prod.fst) with
    | none => simp [eq_comm]
    | some parts =>
      obtain ⟨before, mark⟩ := parts
      have hne : mark ≠ [] := by
        rintro rfl
        cases endsCode_of_splitMark hm
      simp only [List.mem_singleton, exists_eq_left, Option.some.injEq, Prod.mk.injEq, exists_eq_left']
      exact and_iff_right_of_imp fun heq ↦ heq ▸ hne
  | cut piece a rest h ha ih =>
    obtain ⟨c, shown⟩ := a
    obtain ⟨rfl, rfl⟩ : shown = true ∧ c = ';' := by simpa [cutsBehind] using ha
    have hrest : ∀ a ∈ rest.getLast?, a.2 = true := by
      intro a ha
      apply hfront
      rw [List.getLast?_append, List.getLast?_cons, ha]
      rfl
    rw [List.append_assoc, List.cons_append, ofSights_append_cons h]
    by_cases hempty : rest ++ tail = []
    · obtain ⟨rfl, rfl⟩ := List.append_eq_nil_iff.mp hempty
      simp [splitMark, eq_comm]
    · rw [List.isEmpty_eq_false_iff.mpr hempty, if_neg Bool.false_ne_true, ← ih hrest,
        List.exists_mem_cons_iff]
      exact and_congr_right fun hne ↦ or_iff_right hne.symm

theorem exists_comment_ofText_iff (t : Text) (r : Region) :
    (part ≠ [] ∧ ∃ s ∈ (ofText t r).1, s.comment = part) ↔
      ∃ offset, (Scanner.resume t ⟨true, true⟩ (Scanner.commentStart t r)).drain.2.haltedAt =
          some offset ∧ fromByte? t offset = some part := by
  obtain ⟨front, tail, hs, hfront, htail⟩ := exists_hidden_tail (sights r.carried false t [])
  obtain ⟨t₁, t₂, rfl, hf, ht⟩ := sights_eq_append hs
  have hfst : tail.map Prod.fst = t₂ := by rw [ht, map_fst_sights]
  rw [ofText_eq, hs, exists_comment_ofSights_iff hfront htail, hfst, Scanner.haltedAt_resume_iff]
  by_cases h₁ : t₁ = []
  · subst h₁
    obtain rfl : front = [] := hf
    rw [Scanner.commentStart_of_hidden (by rwa [hs])]
    exact exists_splitMark_iff rfl
  · rw [List.append_nil] at hf
    have hne : front ≠ [] := by
      rintro rfl
      exact h₁ (by rw [← map_fst_sights r.carried false t₁ t₂, ← hf]; rfl)
    have hlast : ∃ a ∈ sights r.carried false (t₁ ++ t₂) [], a.2 = true := by
      rw [hs]
      exact ⟨_, List.mem_append_left _ (List.getLast_mem hne),
        hfront _ (List.getLast?_eq_some_getLast hne)⟩
    rw [Scanner.commentStart_of_shown hlast]
    exact exists_splitMark_iff (walk_of_shown h₁ (hf ▸ hfront))

end Statement

namespace Cut

def trailing? (c : Cut) : Option Text :=
  fromByte? c.text (min c.codeEnd (byteLength c.text))

theorem trailing?_of_statement? {c : Cut} {s : Statement} (h : c.statement? true = some s) :
    c.trailing? = some s.comment := by
  obtain ⟨trailing, htrailing, h⟩ := Option.bind_eq_some_iff.mp h
  rw [trailing?, htrailing]
  cases trailing with
  | nil =>
    obtain rfl := Option.some.inj h
    rfl
  | cons =>
    obtain ⟨code, -, h⟩ := Option.bind_eq_some_iff.mp h
    obtain rfl := Option.some.inj h
    rfl

theorem map_trailing?_of_mapM {cuts : List Cut} {statements : List Statement}
    (h : cuts.mapM (statement? true) = some statements) :
    cuts.map trailing? = statements.map fun s ↦ some s.comment := by
  induction cuts generalizing statements with
  | nil =>
    obtain rfl : statements = [] := by simpa using h
    rfl
  | cons c cuts ih =>
    rw [List.mapM_cons] at h
    obtain ⟨s, hs, h⟩ := Option.bind_eq_some_iff.mp h
    obtain ⟨rest, hrest, h⟩ := Option.bind_eq_some_iff.mp h
    obtain rfl := Option.some.inj h
    rw [List.map_cons, List.map_cons, trailing?_of_statement? hs, ih hrest]

end Cut

namespace Segment

/-- The comment that is split off a line is what stands behind the sentinel from where the scan halts
that is told to hide comments and quoted text, and starts in the region in which the line starts; but the
scan starts in code if it would show nothing otherwise, that is, if the line is all literal or span up
to its end or to a mark. Wherever it halts there is a comment. -/
theorem comment_iff_haltedAt (line : Text) (lineNumber : Nat) (r : Region) :
    ∃ cuts, Cut.ofText? (Sentinel.cut line).2 r = some cuts ∧
      cuts.map Cut.trailing? = (ofLine line lineNumber false r).1.map (fun s ↦ some s.comment) ∧
      (∀ part, (part ≠ [] ∧ ∃ s ∈ (ofLine line lineNumber false r).1, s.comment = part) ↔
        ∃ offset, (Scanner.resume (Sentinel.cut line).2 ⟨true, true⟩
            (Scanner.commentStart (Sentinel.cut line).2 r)).drain.2.haltedAt = some offset ∧
          fromByte? (Sentinel.cut line).2 offset = some part) ∧
      ∀ offset, (Scanner.resume (Sentinel.cut line).2 ⟨true, true⟩
            (Scanner.commentStart (Sentinel.cut line).2 r)).drain.2.haltedAt = some offset →
        ∃ part, fromByte? (Sentinel.cut line).2 offset = some part ∧ part ≠ [] ∧
          ∃ s ∈ (ofLine line lineNumber false r).1, s.comment = part := by
  have hmap : (ofLine line lineNumber false r).1.map toStatement =
      (Statement.ofText (Sentinel.cut line).2 r).1 :=
    map_toStatement_place _ _ _ _
  obtain ⟨cuts, hcuts, hstatements⟩ := Option.bind_eq_some_iff.mp
    (Statement.mapM_ofText? (Sentinel.cut line).2 r true)
  have hcomment (part : Text) :
      (part ≠ [] ∧ ∃ s ∈ (ofLine line lineNumber false r).1, s.comment = part) ↔
        ∃ offset, (Scanner.resume (Sentinel.cut line).2 ⟨true, true⟩
            (Scanner.commentStart (Sentinel.cut line).2 r)).drain.2.haltedAt = some offset ∧
          fromByte? (Sentinel.cut line).2 offset = some part := by
    rw [← Statement.exists_comment_ofText_iff, ← hmap]
    simp
  refine ⟨cuts, hcuts, ?_, hcomment, fun offset hhalted ↦ ?_⟩
  · rw [Cut.map_trailing?_of_mapM hstatements, ← hmap, List.map_map]
    rfl
  · obtain ⟨before, mark, hrest, rfl, -⟩ := Scanner.exists_of_haltedAt hhalted
    have hmark : fromByte? (Sentinel.cut line).2 (byteLength before) = some mark := by
      rw [hrest, fromByte?_append]
    exact ⟨mark, hmark, (hcomment mark).mpr ⟨_, hhalted, hmark⟩⟩

/-- A scan that starts in the literal that a line has left open does not tell where the next one has its
comment, if that literal is all there is in front: a comment behind it is taken for code, since its closing
delimiter is taken for an opening one, and a mark in it for a comment. -/
theorem not_comment_iff_haltedAt_openLiteral :
    (ofLine "x = 'a&\n".toList 1 false .code).2 = .literal '\'' ∧
      ¬((∃ s ∈ (ofLine " b'! c\n".toList 2 false (.literal '\'')).1, s.comment ≠ []) ↔
        ∃ offset, (Scanner.resume (Sentinel.cut " b'! c\n".toList).2 ⟨true, true⟩
          (.literal '\'')).drain.2.haltedAt = some offset) ∧
      ¬((∃ s ∈ (ofLine " !b\n".toList 2 false (.literal '\'')).1, s.comment ≠ []) ↔
        ∃ offset, (Scanner.resume (Sentinel.cut " !b\n".toList).2 ⟨true, true⟩
          (.literal '\'')).drain.2.haltedAt = some offset) := by
  refine ⟨by decide, fun h ↦ ?_, fun h ↦ ?_⟩
  · have hcode : ∀ s ∈ (ofLine " b'! c\n".toList 2 false (.literal '\'')).1, s.comment = [] := by
      decide
    obtain ⟨s, hs, hcomment⟩ := h.mpr ⟨3, by decide⟩
    exact hcomment (hcode s hs)
  · have hhalted : (Scanner.resume (Sentinel.cut " !b\n".toList).2 ⟨true, true⟩
        (.literal '\'')).drain.2.haltedAt = none := by
      decide
    obtain ⟨offset, hoffset⟩ := h.mp (by decide)
    cases hhalted.symm.trans hoffset

end Segment

end FreeForm
