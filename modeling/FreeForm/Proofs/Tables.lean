import FreeForm.Toml.Document
import Mathlib.Data.List.Nodup

namespace FreeForm

namespace Toml

namespace Entries

variable {es es' : Entries} {name : Text}

def names (es : Entries) : List Text :=
  es.map fun e ↦ e.1.name

theorem names_alter {missing : Option Entry} {found : Entry → Option Entry}
    (hmissing : ∀ e ∈ missing, e.1.name = name)
    (hfound : ∀ e e', found e = some e' → e'.1.name = e.1.name)
    (h : alter name missing found es = some es') :
    es'.names = es.names ∨ name ∉ es.names ∧ es'.names = es.names ++ [name] := by
  induction es generalizing es' with
  | nil =>
    obtain ⟨e, he, rfl⟩ := Option.map_eq_some_iff.mp h
    exact Or.inr ⟨List.not_mem_nil, by rw [← hmissing e he]; rfl⟩
  | cons e es ih =>
    rw [alter] at h
    split at h
    · obtain ⟨e', he', rfl⟩ := Option.map_eq_some_iff.mp h
      exact Or.inl (by rw [names, List.map_cons, hfound e e' he']; rfl)
    · next hne =>
      obtain ⟨rest, hrest, rfl⟩ := Option.map_eq_some_iff.mp h
      rcases ih hrest with hsame | ⟨hnot, hnew⟩
      · exact Or.inl (congrArg (e.1.name :: ·) hsame)
      · refine Or.inr ⟨?_, congrArg (e.1.name :: ·) hnew⟩
        intro hmem
        rcases List.mem_cons.mp hmem with heq | hmem
        · exact hne heq.symm
        · exact hnot hmem

theorem nodup_concat (hes : es.names.Nodup) (hnot : name ∉ es.names) :
    (es.names ++ [name]).Nodup := by
  rw [← List.concat_eq_append]
  exact List.Nodup.concat hnot hes

theorem nodup_alter {missing : Option Entry} {found : Entry → Option Entry}
    (hmissing : ∀ e ∈ missing, e.1.name = name)
    (hfound : ∀ e e', found e = some e' → e'.1.name = e.1.name) (hes : es.names.Nodup)
    (h : alter name missing found es = some es') : es'.names.Nodup := by
  rcases names_alter hmissing hfound h with hsame | ⟨hnot, hnew⟩
  · rwa [hsame]
  · rw [hnew]
    exact nodup_concat hes hnot

theorem nodup_within {dotted : Bool} {stop? : Option Nat} {f : Form → Entries → Option Entries}
    (hf : ∀ form es es', es.names.Nodup → f form es = some es' → es'.names.Nodup)
    {path : List Key} {form : Form} (hes : es.names.Nodup)
    (h : within dotted stop? f path form es = some es') : es'.names.Nodup := by
  cases path with
  | nil => exact hf form es es' hes h
  | cons k path =>
    rw [within] at h
    refine nodup_alter ?_ ?_ hes h
    · intro e he
      obtain ⟨_, -, rfl⟩ := Option.map_eq_some_iff.mp he
      rfl
    · intro e e' he
      split at he
      · split at he
        · obtain ⟨_, -, rfl⟩ := Option.map_eq_some_iff.mp he
          rfl
        · cases he
      · obtain ⟨_, -, rfl⟩ := Option.map_eq_some_iff.mp he
        rfl
      · cases he

theorem nodup_set {path : List Key} {e : Entry} {form : Form} (hes : es.names.Nodup)
    (h : es.set path e form = some es') : es'.names.Nodup := by
  refine nodup_within ?_ hes h
  intro form es es' hes h
  split at h
  · cases h
  · refine nodup_alter ?_ (by simp) hes h
    intro e he
    obtain rfl := Option.mem_some.mp he
    rfl

theorem nodup_openRow {k : Key} {extent : Extent} (hes : es.names.Nodup)
    (h : es.openRow k extent = some es') : es'.names.Nodup := by
  refine nodup_alter ?_ ?_ hes h
  · intro e he
    obtain rfl := Option.mem_some.mp he
    rfl
  · intro e e' he
    split at he
    · obtain rfl := Option.some.inj he
      rfl
    · cases he

theorem names_eraseP (es : Entries) (name : Text) :
    names (es.eraseP fun e ↦ e.1.name = name) = es.names.erase name := by
  have hp : ((· == name) ∘ fun e : Entry ↦ e.1.name) = fun e ↦ decide (e.1.name = name) := by
    funext e
    exact Bool.beq_eq_decide_eq _ _
  rw [List.erase_eq_eraseP', names, names, List.eraseP_map, hp]

theorem nodup_openTable {k : Key} {extent : Extent} (hes : es.names.Nodup)
    (h : es.openTable k extent = some es') : es'.names.Nodup := by
  rw [openTable] at h
  split at h
  · next hnone =>
    obtain rfl := Option.some.inj h
    rw [names, List.map_append]
    refine nodup_concat hes ?_
    intro hmem
    obtain ⟨e, he, heq⟩ := List.mem_map.mp hmem
    simpa [heq] using List.find?_eq_none.mp hnone e he
  · obtain rfl := Option.some.inj h
    rw [names, List.map_append]
    have herase := names_eraseP es k.name
    refine nodup_concat ?_ ?_
    · rw [herase]
      exact hes.erase k.name
    · rw [herase]
      exact hes.not_mem_erase
  · cases h

end Entries

namespace Draft

variable {d d' : Draft} {t rest : Text}

theorem nodup_set {path : List Key} {e : Entry} (hd : d.entries.names.Nodup)
    (h : d.set path e = some d') : d'.entries.names.Nodup := by
  obtain ⟨es, hes, rfl⟩ := Option.map_eq_some_iff.mp h
  exact Entries.nodup_within (fun _ _ _ ↦ Entries.nodup_set) hd hes

theorem nodup_openHeader {double : Bool} {path : List Key} {k : Key} {extent : Extent}
    (hd : d.entries.names.Nodup) (h : d.openHeader double path k extent = some d') :
    d'.entries.names.Nodup := by
  obtain ⟨es, hes, rfl⟩ := Option.map_eq_some_iff.mp h
  refine Entries.nodup_within ?_ hd hes
  intro form es es' hes h
  split at h
  · exact Entries.nodup_openRow hes h
  · exact Entries.nodup_openTable hes h

theorem exists_of_readHeader (h : d.readHeader t = some (d', rest)) :
    ∃ double path k extent, d.openHeader double path k extent = some d' := by
  unfold readHeader at h
  split at h
  · obtain ⟨⟨path, k, u⟩, -, h⟩ := Option.bind_eq_some_iff.mp h
    split at h
    · obtain ⟨_, hopen, heq⟩ := Option.bind_eq_some_iff.mp h
      obtain ⟨rfl, -⟩ := Prod.mk.inj (Option.some.inj heq)
      exact ⟨_, _, _, _, hopen⟩
    · cases h
  · obtain ⟨⟨path, k, u⟩, -, h⟩ := Option.bind_eq_some_iff.mp h
    split at h
    · obtain ⟨_, hopen, heq⟩ := Option.bind_eq_some_iff.mp h
      obtain ⟨rfl, -⟩ := Prod.mk.inj (Option.some.inj heq)
      exact ⟨_, _, _, _, hopen⟩
    · cases h
  · cases h

theorem exists_of_readPair (h : d.readPair t = some (d', rest)) :
    ∃ path e, d.set path e = some d' := by
  unfold readPair at h
  obtain ⟨⟨path, k, u⟩, -, h⟩ := Option.bind_eq_some_iff.mp h
  split at h
  · obtain ⟨⟨item, _⟩, -, h⟩ := Option.bind_eq_some_iff.mp h
    obtain ⟨_, hset, heq⟩ := Option.bind_eq_some_iff.mp h
    obtain ⟨rfl, -⟩ := Prod.mk.inj (Option.some.inj heq)
    exact ⟨_, _, hset⟩
  · cases h

theorem nodup_readLine (hd : d.entries.names.Nodup) (h : d.readLine t = some (d', rest)) :
    d'.entries.names.Nodup := by
  unfold readLine at h
  split at h
  · obtain ⟨rfl, -⟩ := Prod.mk.inj (Option.some.inj h)
    exact hd
  · split at h
    · obtain ⟨rfl, -⟩ := Prod.mk.inj (Option.some.inj h)
      exact hd
    · split at h
      · obtain ⟨_, _, _, _, hopen⟩ := exists_of_readHeader h
        exact nodup_openHeader hd hopen
      · obtain ⟨_, _, hset⟩ := exists_of_readPair h
        exact nodup_set hd hset

theorem nodup_read (hd : d.entries.names.Nodup) (h : d.read t = some d') :
    d'.entries.names.Nodup := by
  fun_induction read d t with
  | case1 => exact Option.some.inj h ▸ hd
  | case2 => cases h
  | case3 => cases h
  | case4 d t _ _ d₁ rest hline rest' _ _ ih => exact ih (nodup_readLine hd hline) h
  | case5 => cases h

end Draft

/-- No two entries of a document have one name. -/
theorem nodup_document {t : Text} {es : Entries} (h : document? t = some es) : es.names.Nodup := by
  obtain ⟨d, hd, rfl⟩ := Option.map_eq_some_iff.mp h
  exact Draft.nodup_read (d := ⟨[], []⟩) List.nodup_nil hd

end Toml

end FreeForm
