import FreeForm.Proofs.Tables
import FreeForm.Settings.Document

namespace FreeForm

namespace Toml

namespace Entries

def item? (name : Text) (es : Entries) : Option Item :=
  (es.find? fun e ↦ e.1.name = name).map fun e ↦ e.2.2

theorem item?_cons_of_eq {name : Text} {e : Entry} (h : e.1.name = name) (es : Entries) :
    item? name (e :: es) = some e.2.2 := by
  rw [item?, List.find?_cons_of_pos (by simpa using h), Option.map_some]

theorem item?_cons_of_ne {name : Text} {e : Entry} (h : e.1.name ≠ name) (es : Entries) :
    item? name (e :: es) = es.item? name := by
  rw [item?, List.find?_cons_of_neg (by simpa using h), item?]

theorem item?_eq_none {name : Text} {es : Entries} (h : name ∉ es.names) : es.item? name = none := by
  rw [item?, Option.map_eq_none_iff, List.find?_eq_none]
  intro e he heq
  exact h (List.mem_map.mpr ⟨e, he, by simpa using heq⟩)

end Entries

end Toml

namespace Settings

open Toml

namespace Field

def item (s : Settings) : Field → Item
  | tabWidth => .integer s.tabWidth
  | maxContinuationLines => .integer s.maxContinuationLines
  | strict => .boolean s.strict

def IsName (name : Text) : Prop :=
  ∃ f : Field, f.name = name

theorem ofName?_eq_some_iff {name : Text} {f : Field} : ofName? name = some f ↔ f.name = name := by
  constructor
  · intro h
    simpa using List.find?_some h
  · rintro rfl
    exact ofName?_name f

theorem name_ne {f g : Field} (h : f ≠ g) : f.name ≠ g.name := by
  intro heq
  have hname : ofName? g.name = some f := ofName?_eq_some_iff.mpr heq
  rw [ofName?_name] at hname
  exact h (Option.some.inj hname).symm

end Field

variable {s s' : Settings} {es : Entries}

theorem ext_item (h : ∀ f : Field, f.item s = f.item s') : s = s' := by
  obtain ⟨tabWidth, maxContinuationLines, strict⟩ := s
  have htab := h .tabWidth
  have hmax := h .maxContinuationLines
  have hstrict := h .strict
  simp only [Field.item, Item.integer.injEq, Item.boolean.injEq, Int.ofNat_inj] at htab hmax hstrict
  rw [htab, hmax, hstrict]

theorem of_count {item : Item} {extent : Extent} {n : Nat} (h : count item extent = .ok n) :
    item = .integer n := by
  unfold count at h
  split at h
  · obtain rfl := Except.ok.inj h
    rfl
  · cases h
  · cases h

theorem of_flag {item : Item} {extent : Extent} {b : Bool} (h : flag item extent = .ok b) :
    item = .boolean b := by
  unfold flag at h
  split at h
  · obtain rfl := Except.ok.inj h
    rfl
  · cases h

theorem bind_eq_ok_iff {ε α β : Type} {x : Except ε α} {f : α → Except ε β} {b : β} :
    x >>= f = .ok b ↔ ∃ a, x = .ok a ∧ f a = .ok b := by
  cases x <;> simp [bind, Except.bind]

theorem exists_of_map_eq_ok {ε α β : Type} {f : α → β} {x : Except ε α} {b : β}
    (h : x.map f = .ok b) : ∃ a, x = .ok a ∧ f a = b := by
  cases x with
  | error => cases h
  | ok a => exact ⟨a, rfl, Except.ok.inj h⟩

/-- Entry by entry, `step` reads fields into a state of which `view` tells what it has of each. Keys that
are no fields are left alone if `lenient` holds, and refused otherwise. -/
structure ReadsFields {σ : Type} (step : σ → Entry → Except DocumentError σ) (view : Field → σ → Option Item)
    (lenient : Prop) : Prop where
  ext : ∀ {x y}, (∀ f, view f x = view f y) → x = y
  of_ok : ∀ {x y} {e : Entry} {f : Field}, f.name = e.1.name → step x e = .ok y →
    view f y = some e.2.2 ∧ ∀ g, g ≠ f → view g y = view g x
  exists_ok : ∀ {x y} {e : Entry} {f : Field}, f.name = e.1.name → view f y = some e.2.2 → ∃ z, step x e = .ok z
  other : ∀ {x y} {e : Entry}, ¬Field.IsName e.1.name → (step x e = .ok y ↔ lenient ∧ x = y)

namespace ReadsFields

variable {σ : Type} {step : σ → Entry → Except DocumentError σ} {view : Field → σ → Option Item} {lenient : Prop}
  {x y : σ} {e : Entry} {f : Field}

theorem or_item?_cons (h : ReadsFields step view lenient) (hf : f.name = e.1.name) (hnot : e.1.name ∉ es.names)
    (hstep : step x e = .ok y) (g : Field) :
    (es.item? g.name).or (view g y) = (Entries.item? g.name (e :: es)).or (view g x) := by
  obtain ⟨hread, hothers⟩ := h.of_ok hf hstep
  by_cases hg : g = f
  · subst hg
    rw [Entries.item?_cons_of_eq hf.symm, Entries.item?_eq_none (hf ▸ hnot), Option.none_or, Option.some_or, hread]
  · have hne : e.1.name ≠ g.name := fun heq ↦ Field.name_ne hg (heq.symm.trans hf.symm)
    rw [Entries.item?_cons_of_ne hne, hothers g hg]

/-- If there are no two entries of one name, it does not matter in which order they are read. -/
theorem foldlM_eq_ok_iff (h : ReadsFields step view lenient) (hes : es.names.Nodup) :
    es.foldlM step x = .ok y ↔
      (∀ e ∈ es, Field.IsName e.1.name ∨ lenient) ∧ ∀ f, view f y = (es.item? f.name).or (view f x) := by
  induction es generalizing x with
  | nil =>
    constructor
    · intro hnil
      obtain rfl := Except.ok.inj hnil
      exact ⟨by simp, fun f ↦ rfl⟩
    · rintro ⟨-, hview⟩
      exact congrArg Except.ok (h.ext fun f ↦ (hview f).symm)
  | cons e es ih =>
    obtain ⟨hnot, hrest⟩ := List.nodup_cons.mp hes
    rw [List.foldlM_cons, bind_eq_ok_iff, List.forall_mem_cons]
    simp only [ih hrest]
    by_cases he : Field.IsName e.1.name
    · obtain ⟨f, hf⟩ := he
      constructor
      · rintro ⟨z, hz, hnames, hview⟩
        refine ⟨⟨.inl ⟨f, hf⟩, hnames⟩, fun g ↦ ?_⟩
        rw [hview g, h.or_item?_cons hf hnot hz]
      · rintro ⟨⟨-, hnames⟩, hview⟩
        -- The result has what the entry says, so the entry can be read.
        have hread : view f y = some e.2.2 := by
          rw [hview f, Entries.item?_cons_of_eq hf.symm, Option.some_or]
        obtain ⟨z, hz⟩ := h.exists_ok hf hread
        refine ⟨z, hz, hnames, fun g ↦ ?_⟩
        rw [hview g, h.or_item?_cons hf hnot hz]
    · have hne (f : Field) : e.1.name ≠ f.name := fun heq ↦ he ⟨f, heq.symm⟩
      simp only [Entries.item?_cons_of_ne (hne _), h.other he]
      constructor
      · rintro ⟨z, ⟨hlenient, rfl⟩, hnames, hview⟩
        exact ⟨⟨.inr hlenient, hnames⟩, hview⟩
      · rintro ⟨⟨hor, hnames⟩, hview⟩
        exact ⟨x, ⟨hor.resolve_left he, rfl⟩, hnames, hview⟩

end ReadsFields

theorem Field.ofName?_eq_none {name : Text} (h : ¬IsName name) : ofName? name = none := by
  apply Option.eq_none_iff_forall_ne_some.mpr
  intro f hf
  exact h ⟨f, ofName?_eq_some_iff.mp hf⟩

theorem readsFields_setEntry : ReadsFields setEntry (fun f s ↦ some (f.item s)) True where
  ext h := ext_item fun f ↦ Option.some.inj (h f)
  of_ok {s s' e f} hf h := by
    rw [setEntry, Field.ofName?_eq_some_iff.mpr hf] at h
    cases f with
    | tabWidth | maxContinuationLines =>
      obtain ⟨n, hn, rfl⟩ := exists_of_map_eq_ok h
      exact ⟨congrArg some (of_count hn).symm, fun g hg ↦ by cases g <;> trivial⟩
    | strict =>
      obtain ⟨b, hb, rfl⟩ := exists_of_map_eq_ok h
      exact ⟨congrArg some (of_flag hb).symm, fun g hg ↦ by cases g <;> trivial⟩
  exists_ok {s s' e f} hf h := by
    rw [setEntry, Field.ofName?_eq_some_iff.mpr hf, ← Option.some.inj h]
    cases f <;> exact ⟨_, rfl⟩
  other he := by
    rw [setEntry, Field.ofName?_eq_none he, true_and, Except.ok.injEq]

namespace Given

def item? (g : Given) : Field → Option Item
  | .tabWidth => g.tabWidth.map fun n : Nat ↦ .integer n
  | .maxContinuationLines => g.maxContinuationLines.map fun n : Nat ↦ .integer n
  | .strict => g.strict.map .boolean

theorem ext_item? {g g' : Given} (h : ∀ f, g.item? f = g'.item? f) : g = g' := by
  have hcount : Function.Injective fun n : Nat ↦ Item.integer n := fun _ _ heq ↦ Int.ofNat.inj (Item.integer.inj heq)
  have htab := Option.map_injective hcount (h .tabWidth)
  have hmax := Option.map_injective hcount (h .maxContinuationLines)
  have hstrict := Option.map_injective (fun _ _ ↦ Item.boolean.inj) (h .strict)
  cases g
  cases g'
  rw [mk.injEq]
  exact ⟨htab, hmax, hstrict⟩

theorem readsFields_setEntry : ReadsFields setEntry (fun f g ↦ g.item? f) False where
  ext := ext_item?
  of_ok {g g' e f} hf h := by
    rw [setEntry, Field.ofName?_eq_some_iff.mpr hf] at h
    cases f with
    | tabWidth | maxContinuationLines =>
      obtain ⟨n, hn, rfl⟩ := exists_of_map_eq_ok h
      exact ⟨congrArg some (of_count hn).symm, fun f hf ↦ by cases f <;> trivial⟩
    | strict =>
      obtain ⟨b, hb, rfl⟩ := exists_of_map_eq_ok h
      exact ⟨congrArg some (of_flag hb).symm, fun f hf ↦ by cases f <;> trivial⟩
  exists_ok {g g' e f} hf h := by
    rw [setEntry, Field.ofName?_eq_some_iff.mpr hf]
    cases f <;>
    · obtain ⟨_, -, hitem⟩ := Option.map_eq_some_iff.mp h
      rw [← hitem]
      exact ⟨_, rfl⟩
  other he := by
    rw [setEntry, Field.ofName?_eq_none he]
    simp

theorem item_applyTo (g : Given) (s : Settings) (f : Field) :
    f.item (g.applyTo s) = (g.item? f).getD (f.item s) := by
  obtain ⟨tabWidth, maxContinuationLines, strict⟩ := g
  cases f with
  | tabWidth => cases tabWidth <;> rfl
  | maxContinuationLines => cases maxContinuationLines <;> rfl
  | strict => cases strict <;> rfl

def ofItems (s : Settings) (given : Field → Option Item) : Given where
  tabWidth := (given .tabWidth).map fun _ ↦ s.tabWidth
  maxContinuationLines := (given .maxContinuationLines).map fun _ ↦ s.maxContinuationLines
  strict := (given .strict).map fun _ ↦ s.strict

theorem item?_ofItems (s : Settings) (given : Field → Option Item) (f : Field) :
    (ofItems s given).item? f = (given f).map fun _ ↦ f.item s := by
  cases f <;> simp [ofItems, item?, Field.item, Function.comp_def]

theorem exists_applyTo_iff {given : Field → Option Item} {s s' : Settings} :
    (∃ g : Given, (∀ f, g.item? f = given f) ∧ g.applyTo s = s') ↔
      ∀ f : Field, f.item s' = (given f).getD (f.item s) := by
  constructor
  · rintro ⟨g, hg, rfl⟩ f
    rw [item_applyTo, hg]
  · intro h
    have hitems (f : Field) : (ofItems s' given).item? f = given f := by
      rw [item?_ofItems]
      cases hf : given f with
      | none => rfl
      | some item => rw [Option.map_some, h f, hf, Option.getD_some]
    refine ⟨ofItems s' given, hitems, ext_item fun f ↦ ?_⟩
    rw [item_applyTo, hitems, h f]

end Given

variable {t : Text}

theorem entries_eq_ok_iff : entries t = .ok es ↔ document? t = some es := by
  rw [entries]
  cases document? t with
  | none => simp
  | some es => simp

theorem decodeLenient_eq_ok_iff : decodeLenient t = .ok s ↔
    ∃ es, document? t = some es ∧ ∀ f : Field, f.item s = (es.item? f.name).getD (f.item {}) := by
  simp only [decodeLenient, bind_eq_ok_iff, entries_eq_ok_iff]
  refine exists_congr fun es ↦ and_congr_right fun hes ↦ ?_
  simp [readsFields_setEntry.foldlM_eq_ok_iff (nodup_document hes), Option.or_some]

theorem decode_eq_ok_iff : decode t = .ok s ↔
    ∃ es, document? t = some es ∧ (∀ e ∈ es, Field.IsName e.1.name) ∧
      ∃ g : Given, (∀ f : Field, g.item? f = es.item? f.name) ∧ g.applyTo {} = s := by
  have hnothing (f : Field) : ({} : Given).item? f = none := by cases f <;> rfl
  simp only [decode, bind_eq_ok_iff, entries_eq_ok_iff]
  refine exists_congr fun es ↦ and_congr_right fun hes ↦ ?_
  simp only [Given.readsFields_setEntry.foldlM_eq_ok_iff (nodup_document hes), hnothing, Option.or_none,
    or_false]
  constructor
  · rintro ⟨g, ⟨hnames, hitems⟩, hs⟩
    exact ⟨hnames, g, hitems, Except.ok.inj hs⟩
  · rintro ⟨hnames, g, hitems, rfl⟩
    exact ⟨g, ⟨hnames, hitems⟩, rfl⟩

/-- One decoder puts what a document gives over the default settings, and refuses all other keys; the
other one takes the default of each field that is missing. They agree about all documents without
other keys. -/
theorem decoders_agree (t : Text) (s : Settings) :
    (decode t = .ok s ↔ ∃ es, document? t = some es ∧ (∀ e ∈ es, Field.IsName e.1.name) ∧
        ∃ g : Given, (∀ f : Field, g.item? f = es.item? f.name) ∧ g.applyTo {} = s) ∧
      (decodeLenient t = .ok s ↔ ∃ es, document? t = some es ∧
        ∀ f : Field, f.item s = (es.item? f.name).getD (f.item {})) ∧
      (decode t = .ok s → decodeLenient t = .ok s) ∧
      (decodeLenient t = .ok s →
        (∀ es, document? t = some es → ∀ e ∈ es, Field.IsName e.1.name) → decode t = .ok s) := by
  refine ⟨decode_eq_ok_iff, decodeLenient_eq_ok_iff, ?_, ?_⟩
  · intro h
    obtain ⟨es, hes, -, hgiven⟩ := decode_eq_ok_iff.mp h
    exact decodeLenient_eq_ok_iff.mpr ⟨es, hes, Given.exists_applyTo_iff.mp hgiven⟩
  · intro h hnames
    obtain ⟨es, hes, hitems⟩ := decodeLenient_eq_ok_iff.mp h
    exact decode_eq_ok_iff.mpr ⟨es, hes, hnames es hes, Given.exists_applyTo_iff.mpr hitems⟩

end Settings

end FreeForm
