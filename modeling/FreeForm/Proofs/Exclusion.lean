import FreeForm.Proofs.Cutting
import FreeForm.Proofs.Wildcards
import FreeForm.Selection
import Mathlib.Algebra.Order.BigOperators.Group.List
import Mathlib.Algebra.Order.Group.Nat

namespace FreeForm

namespace Path

def IsName (t : Text) : Prop :=
  '/' ∉ t ∧ stepOf? t = some (.name t)

theorem parts_of_not_mem {t : Text} (h : '/' ∉ t) : parts t = [t] := by
  apply List.splitOnP_eq_singleton
  intro c hc
  simpa using ne_of_mem_of_not_mem hc h

theorem parts_append_cons (front back : Text) :
    parts (front ++ '/' :: back) = parts front ++ parts back := by
  induction front using cut_induction (· == '/') with
  | whole front h =>
    have hsplit := List.splitOnP_append_cons_of_forall_mem h '/' (by simp) back
    have hwhole : parts front = [front] := List.splitOnP_eq_singleton h
    rw [hwhole]
    exact hsplit
  | cut piece a rest h ha ih =>
    obtain rfl := eq_of_beq ha
    have hsplit := List.splitOnP_append_cons_of_forall_mem h '/' (by simp)
    have hall : parts (piece ++ '/' :: (rest ++ '/' :: back)) =
        piece :: parts (rest ++ '/' :: back) := hsplit _
    have hfront : parts (piece ++ '/' :: rest) = piece :: parts rest := hsplit _
    rw [List.append_assoc, List.cons_append, hall, hfront, ih, List.cons_append]

def startOf : Text → List Step
  | '/' :: _ => [.root]
  | ['.'] | '.' :: '/' :: _ => [.here]
  | _ => []

theorem steps_eq (path : Text) : steps path = startOf path ++ (parts path).filterMap stepOf? := by
  rfl

theorem startOf_cons_cons (c e : Char) (t : Text) : startOf (c :: e :: t) =
    if c = '/' then [.root] else if c = '.' ∧ e = '/' then [.here] else [] := by
  unfold startOf
  split <;> simp_all

theorem startOf_singleton (c : Char) :
    startOf [c] = if c = '/' then [.root] else if c = '.' then [.here] else [] := by
  unfold startOf
  split <;> simp_all

theorem startOf_child {d : Text} (hd : d ≠ []) (name : Text) : startOf (child d name) = startOf d := by
  rw [child]
  rcases d with _ | ⟨c, _ | ⟨e, d⟩⟩
  · contradiction
  · split
    · next hend =>
      obtain rfl : c = '/' := by simpa [Text.endsWith] using hend
      rfl
    · rw [List.singleton_append, startOf_cons_cons, startOf_singleton]
      simp
  · split <;> simp [startOf_cons_cons]

theorem steps_child {d name : Text} (hd : d ≠ []) (hname : IsName name) :
    steps (child d name) = steps d ++ [.name name] := by
  have hlast : (parts name).filterMap stepOf? = [.name name] := by
    rw [parts_of_not_mem hname.1, List.filterMap_cons_some hname.2, List.filterMap_nil]
  rw [steps_eq, steps_eq, startOf_child hd, List.append_assoc]
  congr 1
  rw [child]
  split
  · next hend =>
    obtain ⟨front, rfl⟩ : ∃ front, d = front ++ ['/'] := by
      exact List.getLast?_eq_some_iff.mp (by simpa [Text.endsWith] using hend)
    have hempty : (parts []).filterMap stepOf? = [] := rfl
    rw [List.append_assoc, List.singleton_append, parts_append_cons, parts_append_cons,
      List.filterMap_append, List.filterMap_append, hlast, hempty, List.append_nil]
  · rw [parts_append_cons, List.filterMap_append, hlast]

/-- The path leads through `directory` and from there on through `below`. -/
def Extends (path directory : Text) (below : List Text) : Prop :=
  steps path = steps directory ++ below.map .name

theorem filterMap_name? (names : List Text) : (names.map Step.name).filterMap Step.name? = names := by
  rw [List.filterMap_map]
  exact List.filterMap_some

theorem Extends.names {path directory : Text} {below : List Text} (h : Extends path directory below) :
    names path = names directory ++ below := by
  rw [Path.names, h, List.filterMap_append, filterMap_name?]
  rfl

theorem isName_replicate (n : Nat) : IsName (List.replicate (n + 1) 'a') := by
  constructor
  · intro hmem
    have := List.eq_of_mem_replicate hmem
    contradiction
  · simp [stepOf?, List.replicate_succ]

theorem extends_child {directory name : Text} (hd : directory ≠ []) (hname : IsName name) :
    Extends (child directory name) directory [name] :=
  steps_child hd hname

theorem extends_nil {name : Text} (hname : IsName name) (hstart : startOf name = []) :
    Extends name [] [name] := by
  rw [Extends, steps_eq, hstart, parts_of_not_mem hname.1, List.filterMap_cons_some hname.2]
  rfl

theorem exists_extends (directory : Text) (n : Nat) :
    ∃ path name, Extends path directory [name] ∧ n < path.length ∧ n < name.length := by
  have hname := isName_replicate n
  have hlength : n < (List.replicate (n + 1) 'a').length := by simp
  by_cases hd : directory = []
  · subst hd
    exact ⟨_, _, extends_nil hname (by simp [List.replicate_succ, startOf]), hlength, hlength⟩
  · refine ⟨_, _, extends_child hd hname, ?_, hlength⟩
    rw [child]
    split
    · rw [List.length_append]
      omega
    · rw [List.length_append, List.length_cons]
      omega

end Path

namespace Selection

variable {patterns : List Glob} {directory : Text}

def ExcludesName (patterns : List Glob) (path : Text) : Prop :=
  ∃ g ∈ patterns, ∃ name ∈ Path.names path, g.accepts name

theorem excludes_iff (path : Text) :
    excludes patterns path ↔ (∃ g ∈ patterns, g.accepts path) ∨ ExcludesName patterns path := by
  simp only [excludes, ExcludesName, List.any_eq_true, Bool.or_eq_true, and_or_left, exists_or]

theorem excludesName_of_extends {path : Text} {below : List Text}
    (h : Path.Extends path directory below) : ExcludesName patterns path ↔
      ExcludesName patterns directory ∨ ∃ g ∈ patterns, ∃ name ∈ below, g.accepts name := by
  simp only [ExcludesName, h.names, List.mem_append, or_and_right, and_or_left, exists_or]

theorem excludes_of_extends {path : Text} {below : List Text} (h : Path.Extends path directory below) :
    excludes patterns path ↔ ExcludesName patterns directory ∨
      ∃ g ∈ patterns, g.accepts path ∨ ∃ name ∈ below, g.accepts name := by
  rw [excludes_iff, excludesName_of_extends h, or_left_comm]
  simp only [and_or_left, exists_or]

theorem excludesName_of_names (h : Path.names directory = [directory])
    (hexcluded : excludes patterns directory) : ExcludesName patterns directory := by
  rcases (excludes_iff directory).mp hexcluded with ⟨g, hg, haccepts⟩ | hname
  · exact ⟨g, hg, directory, by simp [h], haccepts⟩
  · exact hname

section

variable (hread : ∀ g ∈ patterns, ∃ pattern, Glob.parse pattern = .ok g)
include hread

theorem excludes_append {g : Glob} (hg : g ∈ patterns) (haccepts : g.accepts directory)
    {tokens : List Glob.Token} {wildcard : Glob.Token} (htokens : g.tokens = tokens ++ [wildcard])
    (hw : wildcard.isWildcard) (rest : Text) : excludes patterns (directory ++ rest) := by
  obtain ⟨pattern, hpattern⟩ := hread g hg
  rw [Glob.accepts_iff hpattern, htokens] at haccepts
  refine (excludes_iff _).mpr (Or.inl ⟨g, hg, ?_⟩)
  rw [Glob.accepts_iff hpattern, htokens]
  exact haccepts.append hw rest

theorem exists_extends_not_accepted
    (hplain : ∀ g ∈ patterns, ∀ token ∈ g.tokens, token.isWildcard = false) (directory : Text) :
    ∃ path name, Path.Extends path directory [name] ∧
      ∀ g ∈ patterns, ¬g.accepts path ∧ ¬g.accepts name := by
  let lengths := patterns.map (·.tokens.length)
  obtain ⟨path, name, hextends, hpath, hname⟩ := Path.exists_extends directory lengths.sum
  have hlong (t : Text) (ht : lengths.sum < t.length) (g : Glob) (hg : g ∈ patterns) :
      ¬g.accepts t := by
    intro haccepts
    obtain ⟨pattern, hpattern⟩ := hread g hg
    have hlength : t.length = g.tokens.length :=
      ((Glob.accepts_iff hpattern t).mp haccepts).length_eq (hplain g hg)
    have hle : g.tokens.length ≤ lengths.sum := List.le_sum_of_mem (List.mem_map_of_mem hg)
    omega
  exact ⟨path, name, hextends, fun g hg ↦ ⟨hlong path hpath g hg, hlong name hname g hg⟩⟩

theorem forall_excludes_iff_of_plain
    (hplain : ∀ g ∈ patterns, ∀ token ∈ g.tokens, token.isWildcard = false) (directory : Text) :
    (∀ path below, below ≠ [] → Path.Extends path directory below → excludes patterns path) ↔
      ExcludesName patterns directory := by
  constructor
  · intro hall
    obtain ⟨path, name, hextends, hnone⟩ := exists_extends_not_accepted hread hplain directory
    have hpath := hall path [name] (List.cons_ne_nil _ _) hextends
    refine ((excludes_of_extends hextends).mp hpath).resolve_right ?_
    rintro ⟨g, hg, haccepts | ⟨_, hmem, haccepts⟩⟩
    · exact (hnone g hg).1 haccepts
    · obtain rfl := List.mem_singleton.mp hmem
      exact (hnone g hg).2 haccepts
  · intro hname path below _ hextends
    exact (excludes_of_extends hextends).mpr (Or.inl hname)

/-- What it means for the paths below a directory that the directory is excluded. If a pattern stands
for one of its names, all of them are excluded, and so are those that start with what a pattern with a
wildcard at its end stands for. Patterns without wildcards exclude all of them in no other way. -/
theorem excludes_below (hexcluded : excludes patterns directory) :
    (∀ path below, Path.Extends path directory below →
        (excludes patterns path ↔ ExcludesName patterns directory ∨
          ∃ g ∈ patterns, g.accepts path ∨ ∃ name ∈ below, g.accepts name)) ∧
      (Path.names directory = [directory] → ExcludesName patterns directory) ∧
      (∀ g ∈ patterns, g.accepts directory →
        ∀ tokens wildcard, g.tokens = tokens ++ [wildcard] → wildcard.isWildcard →
          ∀ rest, excludes patterns (directory ++ rest)) ∧
      ((∀ g ∈ patterns, ∀ token ∈ g.tokens, token.isWildcard = false) →
        ((∀ path below, below ≠ [] → Path.Extends path directory below → excludes patterns path) ↔
          ExcludesName patterns directory)) := by
  refine ⟨?_, ?_, ?_, ?_⟩
  · intro path below hextends
    exact excludes_of_extends hextends
  · intro hnames
    exact excludesName_of_names hnames hexcluded
  · intro g hg haccepts tokens wildcard htokens hw rest
    exact excludes_append hread hg haccepts htokens hw rest
  · intro hplain
    exact forall_excludes_iff_of_plain hread hplain directory

end

/-- Stands for a directory as it is written, and for none of its names. -/
def twoNames : Glob where
  tokens := "src/build".toList.map .char

theorem excludes_below_twoNames : excludes [twoNames] "src/build".toList ∧
    ¬∀ path below, below ≠ [] → Path.Extends path "src/build".toList below →
      excludes [twoNames] path := by
  have hread : ∀ g ∈ [twoNames], ∃ pattern, Glob.parse pattern = .ok g :=
    List.forall_mem_singleton.mpr ⟨"src/build".toList, Glob.parse_of_plain (by simp)⟩
  have hexcluded : excludes [twoNames] "src/build".toList := by decide
  have hplain : ∀ g ∈ [twoNames], ∀ token ∈ g.tokens, token.isWildcard = false := by decide
  have hname : ¬ExcludesName [twoNames] "src/build".toList := by
    unfold ExcludesName
    decide
  exact ⟨hexcluded, fun hall ↦ hname (((excludes_below hread hexcluded).2.2.2 hplain).mp hall)⟩

/-- What is below an excluded directory is not always excluded. -/
theorem not_excludes_below_twoNames : ¬∀ (patterns : List Glob) (directory path : Text)
    (names below : List Text), (∀ g ∈ patterns, ∃ pattern, Glob.parse pattern = .ok g) →
      Path.steps directory = names.map .name → below ≠ [] → Path.Extends path directory below →
        excludes patterns directory → excludes patterns path := by
  intro h
  have hread : ∀ g ∈ [twoNames], ∃ pattern, Glob.parse pattern = .ok g :=
    List.forall_mem_singleton.mpr ⟨"src/build".toList, Glob.parse_of_plain (by simp)⟩
  have hpath : excludes [twoNames] "src/build/a.f90".toList :=
    h [twoNames] "src/build".toList _ ["src".toList, "build".toList] ["a.f90".toList] hread
      (by decide) (by decide) (by rfl) (by decide)
  have hnot : excludes [twoNames] "src/build/a.f90".toList = false := by decide
  rw [hnot] at hpath
  cases hpath

end Selection

end FreeForm
