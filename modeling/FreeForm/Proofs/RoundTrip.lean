import FreeForm.Proofs.Decoding
import FreeForm.Proofs.Writing

namespace FreeForm

namespace Toml

theorem cutItem_digit {c : Char} (hc : isDigit c) (fuel depth : Nat) (t : Text) :
    cutItem (fuel + 1) depth (c :: t) = cutNumber (c :: t) := by
  rw [cutItem]
  all_goals
    intro _ heq
    exact ne_of_class hc (by decide) (List.cons.inj heq).1

theorem cutValue_ofNat {n : Nat} (h : n < integerLimit) (rest : Text) :
    cutValue (Text.ofNat n ++ '\n' :: rest) = some (.integer n, '\n' :: rest) := by
  obtain ⟨c, digits, hc⟩ := List.exists_cons_of_ne_nil (isNumeral_ofNat n).ne_nil
  have hdigit : isDigit c := (isNumeral_ofNat n).digits c (by simp [hc])
  rw [← cutNumber_ofNat h, hc, List.cons_append]
  exact cutItem_digit hdigit _ _ _

theorem cutValue_ofBool (b : Bool) (rest : Text) :
    cutValue (Text.ofBool b ++ '\n' :: rest) = some (.boolean b, '\n' :: rest) := by
  cases b <;> rfl

theorem Entries.item?_eq_lookup (es : Entries) (name : Text) :
    es.item? name = (es.map fun e ↦ (e.1.name, e.2.2)).lookup name := by
  induction es with
  | nil => rfl
  | cons e es ih =>
    rw [List.map_cons, List.lookup_cons]
    by_cases h : e.1.name = name
    · rw [item?_cons_of_eq h, beq_iff_eq.mpr h.symm]
    · rw [item?_cons_of_ne h, ih, beq_eq_false_iff_ne.mpr (Ne.symm h)]

end Toml

namespace Settings

open Toml

def Field.text (s : Settings) : Field → Text
  | tabWidth => Text.ofNat s.tabWidth
  | maxContinuationLines => Text.ofNat s.maxContinuationLines
  | strict => Text.ofBool s.strict

def Field.pair (s : Settings) (f : Field) : Pair :=
  ⟨f.name, f.text s, f.item s⟩

def written (s : Settings) : Text :=
  (Field.all.map (Field.pair s)).flatMap Pair.line

variable {s : Settings}

theorem visible_ofNat (n : Nat) : ∀ c ∈ (Text.ofNat n).head?, isSpace c = false := by
  intro c hc
  exact isSpace_of_class ((isNumeral_ofNat n).digits c (List.mem_of_mem_head? hc)) (by decide)
    (by decide)

theorem isWritten_pair (htab : s.tabWidth < integerLimit)
    (hlines : s.maxContinuationLines < integerLimit) (f : Field) : (f.pair s).IsWritten := by
  constructor
  · change f.name ≠ []
    cases f <;> decide
  · have hall : f.name.all isBareKeyChar := by cases f <;> decide
    exact List.all_eq_true.mp hall
  · cases f with
    | tabWidth => exact visible_ofNat s.tabWidth
    | maxContinuationLines => exact visible_ofNat s.maxContinuationLines
    | strict => cases h : s.strict <;> simp [Field.pair, Field.text, Text.ofBool, h, isSpace]
  · intro rest
    cases f with
    | tabWidth => exact cutValue_ofNat htab rest
    | maxContinuationLines => exact cutValue_ofNat hlines rest
    | strict => exact cutValue_ofBool s.strict rest

theorem encode?_eq_some (htab : s.tabWidth < integerLimit)
    (hlines : s.maxContinuationLines < integerLimit) :
    encode? s = some (written s) := by
  rw [encode?, countText?, countText?, if_pos htab, if_pos hlines]
  simp [written, Field.all, Field.pair, Field.text, Pair.line, encodeLine]

theorem countText?_eq_none {n : Nat} (h : integerLimit ≤ n) : countText? n = none :=
  if_neg (Nat.not_lt.mpr h)

theorem encode?_eq_none (h : integerLimit ≤ s.tabWidth ∨ integerLimit ≤ s.maxContinuationLines) :
    encode? s = none := by
  rw [encode?]
  rcases h with htab | hlines
  · rw [countText?_eq_none htab]
    rfl
  · rw [countText?_eq_none hlines]
    cases countText? s.tabWidth <;> rfl

theorem item?_of_items {es : Entries}
    (h : es.map (fun e ↦ (e.1.name, e.2.2)) = (Field.all.map (Field.pair s)).map fun p ↦ (p.name, p.item))
    (f : Field) : es.item? f.name = some (f.item s) := by
  rw [Entries.item?_eq_lookup, h]
  cases f <;> rfl

theorem exists_document_written (htab : s.tabWidth < integerLimit)
    (hlines : s.maxContinuationLines < integerLimit) :
    ∃ es : Entries, document? (written s) = some es ∧ es.map (fun e ↦ (e.1.name, e.2.2)) =
      (Field.all.map (Field.pair s)).map fun p ↦ (p.name, p.item) := by
  apply document?_lines
  · intro p hp
    obtain ⟨f, -, rfl⟩ := List.mem_map.mp hp
    exact isWritten_pair htab hlines f
  · rw [List.map_map]
    change (Field.all.map Field.name).Nodup
    decide

theorem decode_of_items {t : Text} {es : Entries} (ht : document? t = some es)
    (h : es.map (fun e ↦ (e.1.name, e.2.2)) =
      (Field.all.map (Field.pair s)).map fun p ↦ (p.name, p.item)) :
    decode t = .ok s ∧ decodeLenient t = .ok s := by
  have hitems (f : Field) : f.item s = (es.item? f.name).getD (f.item {}) := by
    rw [item?_of_items h, Option.getD_some]
  have hnames : ∀ e ∈ es, Field.IsName e.1.name := by
    intro e he
    have hmem := List.mem_map_of_mem (f := fun e : Entry ↦ (e.1.name, e.2.2)) he
    rw [h, List.map_map] at hmem
    obtain ⟨f, -, hf⟩ := List.mem_map.mp hmem
    exact ⟨f, congrArg Prod.fst hf⟩
  exact ⟨decode_eq_ok_iff.mpr ⟨es, ht, hnames, Given.exists_applyTo_iff.mpr hitems⟩,
    decodeLenient_eq_ok_iff.mpr ⟨es, ht, hitems⟩⟩

/-- Settings can be written if both counts are integers of a document, a line for each field, and what is
written is read as the same settings. -/
theorem decode_encode (s : Settings) :
    (s.tabWidth < integerLimit ∧ s.maxContinuationLines < integerLimit →
        encode? s = some (written s) ∧ decode (written s) = .ok s ∧
          decodeLenient (written s) = .ok s) ∧
      (integerLimit ≤ s.tabWidth ∨ integerLimit ≤ s.maxContinuationLines → encode? s = none) := by
  constructor
  · rintro ⟨htab, hlines⟩
    obtain ⟨es, ht, hitems⟩ := exists_document_written htab hlines
    exact ⟨encode?_eq_some htab hlines, decode_of_items ht hitems⟩
  · intro h
    exact encode?_eq_none h

example : encode? {} =
    some "tab_width = 8\nmax_continuation_lines = 10000\nstrict = false\n".toList := by
  decide

end Settings

end FreeForm
