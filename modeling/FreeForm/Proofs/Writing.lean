import FreeForm.Proofs.Numerals
import FreeForm.Proofs.Tables

namespace FreeForm

namespace Toml

structure Pair where
  name : Text
  value : Text
  item : Item

namespace Pair

def line (p : Pair) : Text :=
  p.name ++ " = ".toList ++ p.value ++ ['\n']

/-- The name is no longer without its quotes, and at the end of a line the value is read as the item. -/
structure IsWritten (p : Pair) : Prop where
  ne_nil : p.name ≠ []
  bare : ∀ c ∈ p.name, isBareKeyChar c
  visible : ∀ c ∈ p.value.head?, isSpace c = false
  value : ∀ rest, cutValue (p.value ++ '\n' :: rest) = some (p.item, '\n' :: rest)

theorem IsWritten.exists_line_eq_cons {p : Pair} (hp : p.IsWritten) :
    ∃ c t, p.line = c :: t ∧ isBareKeyChar c := by
  obtain ⟨c, name, hc⟩ := List.exists_cons_of_ne_nil hp.ne_nil
  exact ⟨c, _, by rw [line, hc]; rfl, hp.bare c (by simp [hc])⟩

end Pair

variable {t rest : Text}

theorem isSpace_of_class {p : Char → Bool} {c : Char} (hc : p c) (hspace : p ' ' = false)
    (htab : p '\t' = false) : isSpace c = false := by
  simp [isSpace, ne_of_class hc hspace, ne_of_class hc htab]

theorem isSpace_of_isBareKeyChar {c : Char} (hc : isBareKeyChar c) : isSpace c = false :=
  isSpace_of_class hc (by decide) (by decide)

theorem dropWhile_isSpace (h : ∀ c ∈ t.head?, isSpace c = false) : t.dropWhile isSpace = t := by
  cases t with
  | nil => rfl
  | cons c t => rw [List.dropWhile_cons_of_neg (by simp [h c rfl])]

theorem cutKeyPart_bare (hne : t ≠ []) (ht : ∀ c ∈ t, isBareKeyChar c) (rest : Text) :
    cutKeyPart (t ++ ' ' :: rest) =
      some (⟨t, extentBetween (t ++ ' ' :: rest) (' ' :: rest)⟩, ' ' :: rest) := by
  obtain ⟨c, name, rfl⟩ := List.exists_cons_of_ne_nil hne
  have hc := ht c List.mem_cons_self
  have hstring : cutLineString (c :: name ++ ' ' :: rest) = none := by
    rw [List.cons_append, cutLineString]
    · intro _ heq
      exact ne_of_class hc (by decide) (List.cons.inj heq).1
    · intro _ heq
      exact ne_of_class hc (by decide) (List.cons.inj heq).1
  have htake : (c :: name ++ ' ' :: rest).takeWhile isBareKeyChar = c :: name := by
    rw [List.takeWhile_append_of_pos ht]
    simp [isBareKeyChar]
  have hdrop : (c :: name ++ ' ' :: rest).dropWhile isBareKeyChar = ' ' :: rest := by
    rw [List.dropWhile_append_of_pos ht]
    rfl
  rw [cutKeyPart, hstring, htake, hdrop]

theorem cutKey_bare (hne : t ≠ []) (ht : ∀ c ∈ t, isBareKeyChar c) (rest : Text) :
    ∃ extent, cutKey (t ++ " = ".toList ++ rest) = some ([], ⟨t, extent⟩, '=' :: ' ' :: rest) := by
  have hvisible : ∀ c ∈ (t ++ ' ' :: '=' :: ' ' :: rest).head?, isSpace c = false := by
    intro c hc
    obtain ⟨d, name, rfl⟩ := List.exists_cons_of_ne_nil hne
    obtain rfl : d = c := by simpa using hc
    exact isSpace_of_isBareKeyChar (ht d List.mem_cons_self)
  rw [List.append_assoc]
  refine ⟨extentBetween (t ++ ' ' :: '=' :: ' ' :: rest) (' ' :: '=' :: ' ' :: rest), ?_⟩
  change cutKeyParts (78 + 1) (t ++ ' ' :: '=' :: ' ' :: rest) = _
  rw [cutKeyParts, dropWhile_isSpace hvisible, cutKeyPart_bare hne ht]
  rfl

namespace Entries

theorem alter_of_not_mem {name : Text} {missing : Option Entry} {found : Entry → Option Entry}
    {es : Entries} (h : name ∉ es.names) :
    alter name missing found es = missing.map fun e ↦ es ++ [e] := by
  induction es with
  | nil => rfl
  | cons e es ih =>
    obtain ⟨hne, hnot⟩ := not_or.mp (mt List.mem_cons.mpr h)
    rw [alter, if_neg (Ne.symm hne), ih hnot]
    cases missing <;> rfl

end Entries

namespace Draft

variable {d : Draft} {p : Pair}

theorem set_of_not_mem {es : Entries} {e : Entry} (h : e.1.name ∉ es.names) :
    Draft.set ⟨es, []⟩ [] e = some ⟨es ++ [e], []⟩ := by
  have hadd : es.add e = some (es ++ [e]) := Entries.alter_of_not_mem h
  change (es.add e).map (fun es ↦ (⟨es, []⟩ : Draft)) = _
  rw [hadd]
  rfl

theorem readLine_of_isBareKeyChar {c : Char} (hc : isBareKeyChar c) (t : Text) :
    d.readLine (c :: t) = d.readPair (c :: t) := by
  have hcomment : c ≠ '#' := ne_of_class hc (by decide)
  have hnewline : c ≠ '\n' := ne_of_class hc (by decide)
  have hreturn : c ≠ '\r' := ne_of_class hc (by decide)
  have hbracket : c ≠ '[' := ne_of_class hc (by decide)
  simp [readLine, hcomment, hnewline, hreturn, hbracket]

theorem readPair_line (hp : p.IsWritten) {es : Entries} (hnew : p.name ∉ es.names) (rest : Text) :
    ∃ e : Entry, e.1.name = p.name ∧ e.2.2 = p.item ∧
      readPair ⟨es, []⟩ (p.line ++ rest) = some (⟨es ++ [e], []⟩, '\n' :: rest) := by
  have hline : p.line ++ rest = p.name ++ " = ".toList ++ (p.value ++ '\n' :: rest) := by
    simp [Pair.line]
  have hvisible : ∀ c ∈ (p.value ++ '\n' :: rest).head?, isSpace c = false := by
    intro c hc
    by_cases hnil : p.value = []
    · rw [hnil, List.nil_append, List.head?_cons, Option.mem_some] at hc
      subst hc
      decide
    · rw [List.head?_append_of_ne_nil _ hnil] at hc
      exact hp.visible c hc
  obtain ⟨extent, hkey⟩ := cutKey_bare hp.ne_nil hp.bare (p.value ++ '\n' :: rest)
  have hspace : (' ' :: (p.value ++ '\n' :: rest)).dropWhile isSpace = p.value ++ '\n' :: rest :=
    dropWhile_isSpace hvisible
  let e : Entry := ⟨⟨p.name, extent⟩,
    some (extentBetween (p.value ++ '\n' :: rest) ('\n' :: rest)), p.item⟩
  have hset : Draft.set ⟨es, []⟩ [] e = some ⟨es ++ [e], []⟩ := set_of_not_mem hnew
  refine ⟨e, rfl, rfl, ?_⟩
  rw [hline, readPair, hkey]
  simp only [Option.bind_eq_bind, Option.bind_some, hspace, hp.value]
  exact congrArg (Option.bind · _) hset

theorem read_line (hp : p.IsWritten) {es : Entries} (hnew : p.name ∉ es.names) (rest : Text) :
    ∃ e : Entry, e.1.name = p.name ∧ e.2.2 = p.item ∧
      read ⟨es, []⟩ (p.line ++ rest) = read ⟨es ++ [e], []⟩ rest := by
  obtain ⟨e, hname, hitem, hpair⟩ := readPair_line hp hnew rest
  obtain ⟨c, t, ht, hbare⟩ := hp.exists_line_eq_cons
  rw [ht, List.cons_append] at hpair ⊢
  have hlength : rest.length < (c :: (t ++ rest)).length := by
    rw [List.length_cons, List.length_append]
    omega
  have hdrop : (c :: (t ++ rest)).dropWhile isSpace = c :: (t ++ rest) := by
    rw [List.dropWhile_cons_of_neg (by simp [isSpace_of_isBareKeyChar hbare])]
  have hend : endLine ('\n' :: rest) = some rest := rfl
  refine ⟨e, hname, hitem, ?_⟩
  rw [read]
  simp only [hdrop, readLine_of_isBareKeyChar hbare, hpair, hend, if_pos hlength,
    List.isEmpty_cons, Bool.false_eq_true, if_false]

theorem read_lines {ps : List Pair} (hps : ∀ p ∈ ps, p.IsWritten) {es : Entries}
    (hnew : (es.names ++ ps.map Pair.name).Nodup) :
    ∃ new : Entries, new.map (fun e ↦ (e.1.name, e.2.2)) = ps.map (fun p ↦ (p.name, p.item)) ∧
      read ⟨es, []⟩ (ps.flatMap Pair.line) = some ⟨es ++ new, []⟩ := by
  induction ps generalizing es with
  | nil => exact ⟨[], rfl, by rw [List.flatMap_nil, List.append_nil, read]; rfl⟩
  | cons p ps ih =>
    obtain ⟨hp, hps⟩ := List.forall_mem_cons.mp hps
    have hnot : p.name ∉ es.names := by
      intro hmem
      exact List.disjoint_of_nodup_append hnew hmem (by simp)
    obtain ⟨e, hname, hitem, hread⟩ := read_line hp hnot (ps.flatMap Pair.line)
    have hnext : (Entries.names (es ++ [e]) ++ ps.map Pair.name).Nodup := by
      rw [Entries.names, List.map_append, List.map_singleton, hname, List.append_assoc]
      exact hnew
    obtain ⟨new, hitems, hnew⟩ := ih hps hnext
    refine ⟨e :: new, ?_, ?_⟩
    · rw [List.map_cons, List.map_cons, hname, hitem, hitems]
    · rw [List.flatMap_cons, hread, hnew, List.append_assoc]
      rfl

end Draft

theorem document?_lines {ps : List Pair} (hps : ∀ p ∈ ps, p.IsWritten)
    (hnames : (ps.map Pair.name).Nodup) :
    ∃ es : Entries, document? (ps.flatMap Pair.line) = some es ∧
      es.map (fun e ↦ (e.1.name, e.2.2)) = ps.map fun p ↦ (p.name, p.item) := by
  have hnew : (Entries.names [] ++ ps.map Pair.name).Nodup := hnames
  obtain ⟨es, hitems, hread⟩ := Draft.read_lines hps hnew
  refine ⟨es, ?_, hitems⟩
  rw [document?, hread]
  · rfl
  · intro body hbody
    cases ps with
    | nil => cases hbody
    | cons p ps =>
      obtain ⟨c, t, ht, hbare⟩ := (hps p List.mem_cons_self).exists_line_eq_cons
      rw [List.flatMap_cons, ht] at hbody
      exact ne_of_class hbare (by decide) (List.cons.inj hbody).1

end Toml

end FreeForm
