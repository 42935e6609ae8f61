import FreeForm.Options.CommandLine
import Mathlib.Data.List.Induction
import Mathlib.Data.List.TakeWhile

namespace FreeForm

namespace Options

inductive Argument where
  | letter (f : Flag) (c : Char) (h : (Switch.flag f).letter? = some c)
  | name (f : Flag)
  | value (p : Parameter) (t : Text)
  | input (t : Text)

namespace Argument

def token : Argument → Text
  | letter _ c _ => ['-', c]
  | name f => '-' :: '-' :: (Switch.flag f).name
  | value p t => '-' :: '-' :: ((Switch.parameter p).name ++ '=' :: t)
  | input t => t

def sets (f : Flag) : Argument → Bool
  | letter g .. | name g => g = f
  | value .. | input _ => false

def value? (p : Parameter) : Argument → Option Text
  | value q t => if q = p then some t else none
  | letter .. | name _ | input _ => none

def input? : Argument → Option Text
  | input t => some t
  | letter .. | name _ | value .. => none

end Argument

/-- The values with which a parameter has to stand. -/
def values (o : Options) : Parameter → List Text
  | .exclude => o.exclude
  | .extension => o.extensions
  | .jobs => (o.jobs.map Text.ofNat).toList
  | .config => o.config.toList
  | .tabWidth => (o.tabWidth.map Text.ofNat).toList

/-- The arguments ask for the options and for nothing else: each flag once if it is set, the values of each
parameter in their order, and the inputs in theirs. Arguments of different kinds may stand in any order. -/
structure AskFor (arguments : List Argument) (o : Options) : Prop where
  flags : ∀ f, arguments.countP (·.sets f) = if o.isSet f then 1 else 0
  values : ∀ p, arguments.filterMap (·.value? p) = o.values p
  inputs : arguments.filterMap (·.input?) = o.inputs

def IsInput (t : Text) : Prop :=
  t ≠ [] ∧ (t.head? = some '-' → t = ['-'])

/-- A command line can ask for the options: the numbers have at most 64 bits, the name of a file is not empty, and
no input is taken for a switch. -/
structure IsExpressible (o : Options) : Prop where
  jobs : ∀ n ∈ o.jobs, n < Nat.pow 2 64
  tabWidth : ∀ n ∈ o.tabWidth, n < Nat.pow 2 64
  config : ∀ t ∈ o.config, t ≠ []
  inputs : ∀ t ∈ o.inputs, IsInput t

/-- The draft stands for the options `o`; inputs may still wait. -/
inductive Draft.StandsFor : Draft → Options → Prop
  | settled (o : Options) : StandsFor ⟨o, .nothing, false⟩ o
  | waiting (o : Options) {values : List Text} (h : ∀ t ∈ values, t ≠ []) :
      StandsFor ⟨o, .inputs values, false⟩ { o with inputs := o.inputs ++ values }

def add (o : Options) : Argument → Except Refusal Options
  | .letter f .. | .name f => o.setFlag f
  | .value p t => o.setParameter p t
  | .input t => .ok { o with inputs := o.inputs ++ [t] }

variable {d : Draft} {o o' : Options} {f : Flag} {p : Parameter} {t : Text} {a : Argument}
  {arguments front back : List Argument}

theorem addInputs_of_ne_nil {values : List Text} (h : ∀ t ∈ values, t ≠ []) (o : Options) :
    o.addInputs values = .ok { o with inputs := o.inputs ++ values } := by
  have hany : values.any List.isEmpty = false := by simpa using h
  rw [addInputs, hany]
  rfl

namespace Draft.StandsFor

theorem settle (h : d.StandsFor o) : d.settle = .ok ⟨o, .nothing, false⟩ := by
  cases h with
  | settled => rfl
  | waiting o h =>
    rw [Draft.settle]
    simp only [addInputs_of_ne_nil h]
    rfl

theorem onlyInputs (h : d.StandsFor o) : d.onlyInputs = false := by
  cases h <;> rfl

theorem flag (h : d.StandsFor o) (ho : o.setFlag f = .ok o') : d.flag f = .ok ⟨o', .nothing, false⟩ := by
  simp only [Draft.flag, h.settle, bind, Except.bind, ho]
  rfl

theorem attached (h : d.StandsFor o) (ho : o.setParameter p t = .ok o') :
    d.attached p t = .ok ⟨o', .nothing, false⟩ := by
  simp only [Draft.attached, h.settle, bind, Except.bind, ho]
  rfl

theorem plain (h : d.StandsFor o) (ht : t ≠ []) :
    ∃ d', d.plain t = .ok d' ∧ d'.StandsFor { o with inputs := o.inputs ++ [t] } := by
  cases h with
  | settled => exact ⟨_, rfl, .waiting o (by simpa using ht)⟩
  | waiting o hvalues =>
    have hwaiting := StandsFor.waiting o (List.forall_mem_append.mpr ⟨hvalues, List.forall_mem_singleton.mpr ht⟩)
    rw [← List.append_assoc] at hwaiting
    exact ⟨_, rfl, hwaiting⟩

end Draft.StandsFor

theorem name_ne_nil (s : Switch) : s.name ≠ [] := by
  rcases s with f | p
  · cases f <;> decide
  · cases p <;> decide

theorem equals_not_mem_name (s : Switch) : '=' ∉ s.name := by
  rcases s with f | p
  · cases f <;> decide
  · cases p <;> decide

theorem ne_equals_of_mem_name (s : Switch) : ∀ c ∈ s.name, decide (c ≠ '=') :=
  fun _ hc ↦ decide_eq_true (ne_of_mem_of_not_mem hc (equals_not_mem_name s))

theorem ne_dash_of_letter {c : Char} (h : (Switch.flag f).letter? = some c) : c ≠ '-' := by
  rintro rfl
  cases f <;> simp [Switch.letter?] at h

namespace Draft

variable (hd : d.onlyInputs = false)
include hd

theorem token_named {u : Text} (hu : u ≠ []) : d.token ('-' :: '-' :: u) = d.named u := by
  obtain ⟨c, u, rfl⟩ := List.exists_cons_of_ne_nil hu
  unfold token
  rw [hd]
  rfl

theorem token_letter {c : Char} (hc : c ≠ '-') : d.token ['-', c] = d.letters [c] := by
  unfold token
  rw [hd, if_neg Bool.false_ne_true]
  split <;> simp_all

theorem token_plain (ht : IsInput t) : d.token t = d.plain t := by
  obtain ⟨hne, hdash⟩ := ht
  unfold token
  rw [hd, if_neg Bool.false_ne_true]
  split <;> simp_all

end Draft

theorem named_flag (d : Draft) (f : Flag) : d.named (Switch.flag f).name = d.flag f := by
  have hname := ne_equals_of_mem_name (.flag f)
  have htake : (Switch.flag f).name.takeWhile (· ≠ '=') = (Switch.flag f).name :=
    List.takeWhile_eq_self_iff.mpr hname
  have hdrop : (Switch.flag f).name.dropWhile (· ≠ '=') = [] :=
    List.dropWhile_eq_nil_iff.mpr hname
  rw [Draft.named, htake, hdrop, Switch.ofName?_name]

theorem named_parameter (d : Draft) (p : Parameter) (t : Text) :
    d.named ((Switch.parameter p).name ++ '=' :: t) = d.attached p t := by
  have hname := ne_equals_of_mem_name (.parameter p)
  have htake : ((Switch.parameter p).name ++ '=' :: t).takeWhile (· ≠ '=') = (Switch.parameter p).name := by
    rw [List.takeWhile_append_of_pos hname, List.takeWhile_cons_of_neg (by decide), List.append_nil]
  have hdrop : ((Switch.parameter p).name ++ '=' :: t).dropWhile (· ≠ '=') = '=' :: t := by
    rw [List.dropWhile_append_of_pos hname, List.dropWhile_cons_of_neg (by decide)]
  rw [Draft.named, htake, hdrop, Switch.ofName?_name]

/-- A token does to the draft what its argument does to the options for which the draft stands. -/
theorem exists_token (h : d.StandsFor o) (hadd : o.add a = .ok o') (ha : ∀ t, a = .input t → IsInput t) :
    ∃ d', d.token a.token = .ok d' ∧ d'.StandsFor o' := by
  cases a with
  | letter f c hc =>
    refine ⟨_, ?_, .settled o'⟩
    rw [Argument.token, Draft.token_letter h.onlyInputs (ne_dash_of_letter hc), Draft.letters,
      Switch.ofLetter?_eq_some hc]
    simp only [h.flag hadd]
    rfl
  | name f =>
    refine ⟨_, ?_, .settled o'⟩
    rw [Argument.token, Draft.token_named h.onlyInputs (name_ne_nil _), named_flag, h.flag hadd]
  | value p t =>
    refine ⟨_, ?_, .settled o'⟩
    have hne : (Switch.parameter p).name ++ '=' :: t ≠ [] := by simp
    rw [Argument.token, Draft.token_named h.onlyInputs hne, named_parameter, h.attached hadd]
  | input t =>
    obtain rfl := Except.ok.inj hadd
    rw [Argument.token, Draft.token_plain h.onlyInputs (ha t rfl)]
    exact h.plain (ha t rfl).1

theorem exists_foldlM_token (h : d.StandsFor o) (hadd : arguments.foldlM add o = .ok o')
    (ha : ∀ t, .input t ∈ arguments → IsInput t) :
    ∃ d', (arguments.map Argument.token).foldlM Draft.token d = .ok d' ∧ d'.StandsFor o' := by
  induction arguments generalizing d o with
  | nil =>
    obtain rfl := Except.ok.inj hadd
    exact ⟨d, rfl, h⟩
  | cons a arguments ih =>
    rw [List.foldlM_cons] at hadd
    cases hfirst : o.add a with
    | error r =>
      rw [hfirst] at hadd
      cases hadd
    | ok o₁ =>
      rw [hfirst] at hadd
      obtain ⟨d₁, htoken, h₁⟩ := exists_token h hfirst fun t ht ↦ ha t (by simp [ht])
      rw [List.map_cons, List.foldlM_cons, htoken]
      exact ih h₁ hadd fun t ht ↦ ha t (List.mem_cons_of_mem a ht)

theorem ofTokens_of_foldlM_add (h : arguments.foldlM add {} = .ok o)
    (ha : ∀ t, .input t ∈ arguments → IsInput t) : ofTokens (arguments.map Argument.token) = .ok o := by
  obtain ⟨d, htokens, hd⟩ := exists_foldlM_token (.settled {}) h ha
  simp only [ofTokens, htokens, hd.settle, bind, Except.bind]
  rfl

theorem ofNat_injective {m n : Nat} (h : Text.ofNat m = Text.ofNat n) : m = n := by
  have hdigits := congrArg (Nat.ofDigitChars 10 · 0) h
  simpa [Text.ofNat, Nat.ofDigitChars_ten_toDigits] using hdigits

theorem count?_ofNat {n : Nat} (h : n < Nat.pow 2 64) : count? (Text.ofNat n) = some n := by
  have hdigits : ∀ c ∈ Text.ofNat n, c.isDigit := fun c hc ↦
    Nat.isDigit_of_mem_toDigits (by decide) (by decide) hc
  have hvalue : (Text.ofNat n).foldl (fun n c ↦ 10 * n + (c.toNat - '0'.toNat)) 0 = n := by
    rw [← Nat.ofDigitChars_eq_foldl]
    exact Nat.ofDigitChars_ten_toDigits
  have hall : (Text.ofNat n).all Char.isDigit := List.all_eq_true.mpr hdigits
  have hempty : (Text.ofNat n).isEmpty = false := List.isEmpty_eq_false_iff.mpr Nat.toDigits_ne_nil
  have hplus : ∀ t, Text.ofNat n ≠ '+' :: t := by
    intro t heq
    exact absurd (hdigits '+' (by simp [heq])) (by decide)
  unfold count?
  split
  · exact absurd ‹_› (hplus _)
  · simp only [hempty, hall, hvalue, if_pos h]
    rfl

theorem exists_setFlag (hset : o.isSet f = false) (hhelp : f ≠ .help) (hversion : f ≠ .version) :
    ∃ o', o.setFlag f = .ok o' ∧ (∀ g, o'.isSet g = (o.isSet g || f = g)) ∧
      (∀ p, o'.values p = o.values p) ∧ o'.inputs = o.inputs := by
  unfold setFlag
  rw [hset, if_neg Bool.false_ne_true]
  cases f with
  | help => exact absurd rfl hhelp
  | version => exact absurd rfl hversion
  | _ => exact ⟨_, rfl, fun g ↦ by cases g <;> simp [isSet], fun p ↦ by cases p <;> rfl, rfl⟩

theorem eq_of_toList {α : Type} {x y : Option α} (h : x.toList = y.toList) : x = y := by
  have hhead := congrArg List.head? h
  rwa [Option.head?_toList, Option.head?_toList] at hhead

theorem toList_eq_append_cons {α : Type} {x y : Option α} {b : α} {l : List α}
    (h : x.toList = y.toList ++ b :: l) : x = some b ∧ y = none := by
  cases x <;> cases y <;> simp_all

theorem setCount_of_values {old new : Option Nat} {rest : List Text} (hnew : ∀ n ∈ new, n < Nat.pow 2 64)
    (h : (new.map Text.ofNat).toList = (old.map Text.ofNat).toList ++ t :: rest) :
    ∃ n, old = none ∧ t = Text.ofNat n ∧ setCount old t = .ok (some n) := by
  obtain ⟨hsome, hnone⟩ := toList_eq_append_cons h
  obtain ⟨n, rfl, rfl⟩ := Option.map_eq_some_iff.mp hsome
  obtain rfl := Option.map_eq_none_iff.mp hnone
  refine ⟨n, rfl, rfl, ?_⟩
  unfold setCount
  rw [count?_ofNat (hnew n rfl)]

theorem exists_setParameter {target : Options} {rest : List Text} (htarget : target.IsExpressible)
    (hvalues : target.values p = o.values p ++ t :: rest) :
    ∃ o', o.setParameter p t = .ok o' ∧ (∀ f, o'.isSet f = o.isSet f) ∧
      (∀ q, o'.values q = o.values q ++ if p = q then [t] else []) ∧ o'.inputs = o.inputs := by
  cases p with
  | exclude =>
    exact ⟨_, rfl, fun f ↦ by cases f <;> rfl, fun q ↦ by cases q <;> simp [values], rfl⟩
  | extension =>
    exact ⟨_, rfl, fun f ↦ by cases f <;> rfl, fun q ↦ by cases q <;> simp [values], rfl⟩
  | jobs =>
    obtain ⟨n, hjobs, rfl, hset⟩ := setCount_of_values htarget.jobs hvalues
    refine ⟨{ o with jobs := some n }, ?_, fun f ↦ by cases f <;> rfl, fun q ↦ ?_, rfl⟩
    · rw [setParameter, hset]
      rfl
    · cases q <;> simp [values, hjobs]
  | tabWidth =>
    obtain ⟨n, htabWidth, rfl, hset⟩ := setCount_of_values htarget.tabWidth hvalues
    refine ⟨{ o with tabWidth := some n }, ?_, fun f ↦ by cases f <;> rfl, fun q ↦ ?_, rfl⟩
    · rw [setParameter, hset]
      rfl
    · cases q <;> simp [values, htabWidth]
  | config =>
    obtain ⟨hsome, hnone⟩ := toList_eq_append_cons hvalues
    refine ⟨{ o with config := some t }, ?_, fun f ↦ by cases f <;> rfl, fun q ↦ ?_, rfl⟩
    · have hne := htarget.config t hsome
      simp [setParameter, hnone, hne]
    · cases q <;> simp [values, hnone]

theorem exists_add_of_sets {o₀ : Options} (h : AskFor (front ++ a :: back) o) (hfront : AskFor front o₀)
    (hadd : o₀.add a = o₀.setFlag f) (hsets : ∀ g, a.sets g = decide (f = g)) (hvalue : ∀ p, a.value? p = none)
    (hinput : a.input? = none) : ∃ o', o₀.add a = .ok o' ∧ AskFor (front ++ [a]) o' := by
  -- No other argument sets the flag, and no options ask for help or for the version.
  have hcount := h.flags f
  rw [List.countP_append, List.countP_cons, hfront.flags, hsets, if_pos (decide_eq_true rfl)] at hcount
  have hset : o₀.isSet f = false := by
    by_contra hset
    rw [Bool.not_eq_false] at hset
    rw [if_pos hset] at hcount
    split at hcount <;> omega
  have htarget : o.isSet f := by
    by_contra htarget
    rw [if_neg htarget] at hcount
    omega
  have hhelp : f ≠ .help := by
    rintro rfl
    cases htarget
  have hversion : f ≠ .version := by
    rintro rfl
    cases htarget
  obtain ⟨o', ho', hisSet, hvalues, hinputs⟩ := exists_setFlag hset hhelp hversion
  refine ⟨o', hadd.trans ho', fun g ↦ ?_, fun p ↦ ?_, ?_⟩
  · rw [List.countP_append, hfront.flags, List.countP_singleton, hsets, hisSet]
    by_cases hg : f = g
    · subst hg
      simp [hset]
    · simp [hg]
  · rw [List.filterMap_append, hfront.values, hvalues]
    simp [hvalue]
  · rw [List.filterMap_append, hfront.inputs, hinputs]
    simp [hinput]

theorem exists_add_value {o₀ : Options} (h : AskFor (front ++ .value p t :: back) o) (ho : o.IsExpressible)
    (hfront : AskFor front o₀) : ∃ o', o₀.setParameter p t = .ok o' ∧ AskFor (front ++ [.value p t]) o' := by
  have hvalues := h.values p
  rw [List.filterMap_append, hfront.values,
    List.filterMap_cons_some (by rw [Argument.value?, if_pos rfl])] at hvalues
  obtain ⟨o', ho', hisSet, hvalues', hinputs⟩ := exists_setParameter ho hvalues.symm
  refine ⟨o', ho', fun f ↦ ?_, fun q ↦ ?_, ?_⟩
  · rw [List.countP_append, hfront.flags, hisSet]
    rfl
  · rw [List.filterMap_append, hfront.values, hvalues']
    by_cases hq : p = q <;> simp [Argument.value?, hq]
  · rw [List.filterMap_append, hfront.inputs, hinputs]
    exact List.append_nil _

theorem exists_add {o₀ : Options} (h : AskFor (front ++ a :: back) o) (ho : o.IsExpressible)
    (hfront : AskFor front o₀) : ∃ o', o₀.add a = .ok o' ∧ AskFor (front ++ [a]) o' := by
  cases a with
  | letter f c hc => exact exists_add_of_sets h hfront rfl (fun g ↦ rfl) (fun p ↦ rfl) rfl
  | name f => exact exists_add_of_sets h hfront rfl (fun g ↦ rfl) (fun p ↦ rfl) rfl
  | value p t => exact exists_add_value h ho hfront
  | input t =>
    refine ⟨_, rfl, fun f ↦ ?_, fun p ↦ ?_, ?_⟩
    · rw [List.countP_append, hfront.flags]
      cases f <;> rfl
    · rw [List.filterMap_append, hfront.values]
      cases p <;> exact List.append_nil _
    · rw [List.filterMap_append, hfront.inputs]
      rfl

theorem askFor_nil : AskFor [] {} where
  flags f := by cases f <;> rfl
  values p := by cases p <;> rfl
  inputs := rfl

theorem exists_foldlM_add (h : AskFor (front ++ back) o) (ho : o.IsExpressible) :
    ∃ o', front.foldlM add {} = .ok o' ∧ AskFor front o' := by
  -- The arguments are read from the front, so the induction adds one behind those that are read already.
  induction front using List.reverseRecOn generalizing back with
  | nil => exact ⟨{}, rfl, askFor_nil⟩
  | append_singleton front a ih =>
    rw [List.append_assoc] at h
    obtain ⟨o₀, hfold, hfront⟩ := ih h
    obtain ⟨o', hadd, hask⟩ := exists_add h ho hfront
    refine ⟨o', ?_, hask⟩
    rw [List.foldlM_append, hfold]
    simp only [List.foldlM_cons, List.foldlM_nil, bind, Except.bind, hadd]
    rfl

theorem eq_of_values (hisSet : ∀ f, o.isSet f = o'.isSet f) (hvalues : ∀ p, o.values p = o'.values p)
    (hinputs : o.inputs = o'.inputs) : o = o' := by
  have hnumber : ∀ m n : Option Nat, (m.map Text.ofNat).toList = (n.map Text.ofNat).toList → m = n :=
    fun m n h ↦ Option.map_injective (fun _ _ ↦ ofNat_injective) (eq_of_toList h)
  have hjobs := hnumber _ _ (hvalues .jobs)
  have htabWidth := hnumber _ _ (hvalues .tabWidth)
  have hconfig := eq_of_toList (hvalues .config)
  cases o
  cases o'
  rw [mk.injEq]
  exact ⟨hinputs, hisSet .recursive, hvalues .exclude, hvalues .extension, hjobs, hconfig, htabWidth,
    hisSet .strict, hisSet .check, hisSet .comments, hisSet .silent, hisSet .debug⟩

theorem AskFor.unique (h : AskFor arguments o) (h' : AskFor arguments o') : o = o' := by
  refine eq_of_values (fun f ↦ ?_) (fun p ↦ ?_) ?_
  · have hcount := (h.flags f).symm.trans (h'.flags f)
    cases hf : o.isSet f <;> cases hf' : o'.isSet f <;> simp [hf, hf'] at hcount ⊢
  · exact (h.values p).symm.trans (h'.values p)
  · exact h.inputs.symm.trans h'.inputs

/-- Options are read back from any arguments that ask for them. -/
theorem ofTokens_arguments (ho : o.IsExpressible) (h : AskFor arguments o) :
    ofTokens (arguments.map Argument.token) = .ok o := by
  have hall : AskFor (arguments ++ []) o := by rwa [List.append_nil]
  obtain ⟨o', hfold, hask⟩ := exists_foldlM_add hall ho
  obtain rfl := hask.unique h
  refine ofTokens_of_foldlM_add hfold fun t ht ↦ ho.inputs t ?_
  rw [← h.inputs]
  exact List.mem_filterMap.mpr ⟨_, ht, rfl⟩

def mixedOptions : Options where
  inputs := ["src".toList, ['-'], "main.f90".toList]
  recursive := true
  exclude := ["*.inc".toList, "a=b".toList]
  extensions := ["f03".toList]
  jobs := some 0
  config := some "my.toml".toList
  tabWidth := some 4
  check := true

theorem ofTokens_arguments_mixedOptions :
    mixedOptions.IsExpressible ∧
      ofTokens (["--exclude=*.inc", "src", "-r", "-", "--tab-width=4", "--exclude=a=b", "--check", "main.f90",
        "--jobs=0", "--fortran=f03", "--config=my.toml"].map String.toList) = .ok mixedOptions := by
  have ho : mixedOptions.IsExpressible :=
    ⟨by decide, by decide, by decide, by simp [mixedOptions, IsInput]⟩
  have h : AskFor [.value .exclude "*.inc".toList, .input "src".toList, .letter .recursive 'r' rfl, .input ['-'],
      .value .tabWidth ['4'], .value .exclude "a=b".toList, .name .check, .input "main.f90".toList,
      .value .jobs ['0'], .value .extension "f03".toList, .value .config "my.toml".toList] mixedOptions := by
    refine ⟨fun f ↦ ?_, fun p ↦ ?_, by decide⟩
    · cases f <;> decide
    · cases p <;> decide
  exact ⟨ho, ofTokens_arguments ho h⟩

end Options

end FreeForm
