import FreeForm.Text.Basic
import Mathlib.Data.List.Basic

namespace FreeForm

open Text

/-- A regular expression whose captures are named by `ν`. -/
inductive Regex (ν : Type) where
  | empty
  | one (p : Char → Bool)
  | seq (a b : Regex ν)
  | alt (a b : Regex ν)
  | star (a : Regex ν)
  | capture (name : ν) (a : Regex ν)

namespace Regex

/-- What has been captured, and the text behind the match. -/
abbrev Match (ν : Type) := List (ν × Text) × Text

variable {ν : Type}

def Match.prepend (captured : List (ν × Text)) (m : Match ν) : Match ν :=
  (captured ++ m.1, m.2)

/-- At most `n` matches one behind the other, none of them empty, and rather more than fewer. -/
def repeated (ways : Text → List (Match ν)) : (n : Nat) → Text → List (Match ν)
  | 0, t => [([], t)]
  | n + 1, t =>
    (((ways t).filter fun m ↦ m.2.length < t.length).flatMap fun m ↦
      (repeated ways n m.2).map (·.prepend m.1)) ++ [([], t)]

/-- The ways to match at the start of a text: the left one of two alternatives is preferred, and rather more
repetitions than fewer. -/
def ways : Regex ν → Text → List (Match ν)
  | empty, t => [([], t)]
  | one _, [] => []
  | one p, c :: t => if p c then [([], t)] else []
  | seq a b, t => (a.ways t).flatMap fun m ↦ (b.ways m.2).map (·.prepend m.1)
  | alt a b, t => a.ways t ++ b.ways t
  | star a, t => repeated (fun t ↦ a.ways t) t.length t
  | capture name a, t =>
    (a.ways t).map fun m ↦ ((name, t.take (t.length - m.2.length)) :: m.1, m.2)

def opt (a : Regex ν) : Regex ν :=
  alt a empty

def plus (a : Regex ν) : Regex ν :=
  seq a (star a)

def oneOf : List (Regex ν) → Regex ν
  | [] => one fun _ ↦ false
  | a :: l => alt a (oneOf l)

/-- The characters of `w`, one behind the other, in either case. They are lower case in `w`. -/
def word (w : Text) : Regex ν :=
  w.foldr (fun c a ↦ .seq (.one (·.toLower = c)) a) .empty

def match? (a : Regex ν) (t : Text) : Option (Match ν) :=
  (a.ways t).head?

variable {a b : Regex ν} {t : Text} {m : Match ν} {p : Char → Bool} {c : Char}

@[simp] theorem Match.prepend_nil (m : Match ν) : m.prepend [] = m :=
  rfl

theorem repeated_congr (ways : Text → List (Match ν)) {n n' : Nat} (h : t.length ≤ n)
    (h' : t.length ≤ n') : repeated ways n t = repeated ways n' t := by
  induction n generalizing n' t with
  | zero =>
    obtain rfl := List.length_eq_zero_iff.mp (Nat.le_zero.mp h)
    cases n' with
    | zero => rfl
    | succ n' => simp [repeated]
  | succ n ih =>
    cases n' with
    | zero =>
      obtain rfl := List.length_eq_zero_iff.mp (Nat.le_zero.mp h')
      simp [repeated]
    | succ n' =>
      rw [repeated, repeated]
      congr 1
      apply List.flatMap_congr
      intro m hm
      have hlt : m.2.length < t.length := by simpa using (List.mem_filter.mp hm).2
      rw [ih (Nat.le_of_lt_succ (Nat.lt_of_lt_of_le hlt h)) (Nat.le_of_lt_succ (Nat.lt_of_lt_of_le hlt h'))]

theorem ways_star (a : Regex ν) (t : Text) : (star a).ways t =
    (((a.ways t).filter fun m ↦ m.2.length < t.length).flatMap fun m ↦
      ((star a).ways m.2).map (·.prepend m.1)) ++ [([], t)] := by
  have hsucc := repeated_congr (fun t ↦ a.ways t) (Nat.le_refl t.length) (Nat.le_succ t.length)
  rw [ways, hsucc, repeated]
  congr 1
  apply List.flatMap_congr
  intro m hm
  have hlt : m.2.length < t.length := by simpa using (List.mem_filter.mp hm).2
  rw [ways, repeated_congr _ (Nat.le_of_lt hlt) (Nat.le_refl m.2.length)]

theorem mem_ways_one : m ∈ (one p).ways t ↔ ∃ c, p c ∧ t = c :: m.2 ∧ m.1 = [] := by
  rcases t with _ | ⟨c, t⟩
  · simp [ways]
  · rw [ways]
    by_cases hc : p c
    · rw [if_pos hc, List.mem_singleton]
      constructor
      · rintro rfl
        exact ⟨c, hc, rfl, rfl⟩
      · rintro ⟨d, -, ht, hm⟩
        obtain ⟨rfl, rfl⟩ := List.cons.inj ht
        rw [← hm]
    · rw [if_neg hc]
      constructor
      · intro h
        cases h
      · rintro ⟨d, hd, ht, -⟩
        obtain ⟨rfl, -⟩ := List.cons.inj ht
        exact absurd hd hc

theorem mem_ways_seq : m ∈ (seq a b).ways t ↔
    ∃ m₁ ∈ a.ways t, ∃ m₂ ∈ b.ways m₁.2, m₂.prepend m₁.1 = m := by
  simp [ways]

theorem mem_ways_alt : m ∈ (alt a b).ways t ↔ m ∈ a.ways t ∨ m ∈ b.ways t :=
  List.mem_append

theorem mem_ways_star : m ∈ (star a).ways t ↔ m = ([], t) ∨
    ∃ m₁ ∈ a.ways t, m₁.2.length < t.length ∧ ∃ m₂ ∈ (star a).ways m₁.2, m₂.prepend m₁.1 = m := by
  rw [ways_star, List.mem_append, List.mem_singleton, or_comm]
  simp [and_assoc]

theorem suffix_of_mem_ways (h : m ∈ a.ways t) : m.2 <:+ t := by
  induction a generalizing t m with
  | empty =>
    obtain rfl := List.mem_singleton.mp h
    exact List.suffix_refl t
  | one p =>
    obtain ⟨c, -, rfl, -⟩ := mem_ways_one.mp h
    exact List.suffix_cons c m.2
  | seq a b iha ihb =>
    obtain ⟨m₁, hm₁, m₂, hm₂, rfl⟩ := mem_ways_seq.mp h
    exact (ihb hm₂).trans (iha hm₁)
  | alt a b iha ihb =>
    rcases mem_ways_alt.mp h with h | h
    · exact iha h
    · exact ihb h
  | star a ih =>
    induction hlength : t.length using Nat.strongRecOn generalizing t m with
    | _ n ihn =>
      rcases mem_ways_star.mp h with rfl | ⟨m₁, hm₁, hlt, m₂, hm₂, rfl⟩
      · exact List.suffix_refl t
      · exact (ihn _ (hlength ▸ hlt) hm₂ rfl).trans (ih hm₁)
  | capture name a ih =>
    obtain ⟨m, hm, rfl⟩ := List.mem_map.mp h
    have hsuffix := ih hm
    exact hsuffix

theorem ways_star_one_cons (hc : p c) (t : Text) :
    (star (one p) : Regex ν).ways (c :: t) = (star (one p)).ways t ++ [([], c :: t)] := by
  rw [ways_star, ways, if_pos hc]
  simp

theorem ways_star_one_of_not (h : ∀ c ∈ t.head?, p c = false) :
    (star (one p) : Regex ν).ways t = [([], t)] := by
  rw [ways_star]
  rcases t with _ | ⟨c, t⟩
  · rfl
  · rw [ways, if_neg (by simp [h c rfl])]
    rfl

theorem exists_of_mem_ways_star_one (h : m ∈ (star (one p)).ways t) :
    m.1 = [] ∧ ∃ u, (∀ c ∈ u, p c) ∧ t = u ++ m.2 := by
  induction t with
  | nil =>
    rw [ways_star_one_of_not (by simp), List.mem_singleton] at h
    subst h
    exact ⟨rfl, [], by simp, rfl⟩
  | cons c t ih =>
    by_cases hc : p c
    · rw [ways_star_one_cons hc, List.mem_append, List.mem_singleton] at h
      rcases h with h | rfl
      · obtain ⟨hm, u, hu, rfl⟩ := ih h
        exact ⟨hm, c :: u, List.forall_mem_cons.mpr ⟨hc, hu⟩, rfl⟩
      · exact ⟨rfl, [], by simp, rfl⟩
    · rw [ways_star_one_of_not (by simpa using hc), List.mem_singleton] at h
      subst h
      exact ⟨rfl, [], by simp, rfl⟩

theorem exists_of_mem_ways_plus_one (h : m ∈ (plus (one p)).ways t) :
    m.1 = [] ∧ ∃ u, (∀ c ∈ u, p c) ∧ t = u ++ m.2 := by
  obtain ⟨m₁, hm₁, m₂, hm₂, rfl⟩ := mem_ways_seq.mp h
  obtain ⟨c, hc, rfl, hfst⟩ := mem_ways_one.mp hm₁
  obtain ⟨hfst', u, hu, hrest⟩ := exists_of_mem_ways_star_one hm₂
  exact ⟨by simp [Match.prepend, hfst, hfst'], c :: u, List.forall_mem_cons.mpr ⟨hc, hu⟩,
    congrArg (c :: ·) hrest⟩

/-- The preferred way among those that leave a text with the property `q`, which is the way a search takes if
what comes next asks for `q`. -/
def first (a : Regex ν) (q : Text → Bool) (t : Text) : Option (Match ν) :=
  (a.ways t).find? fun m ↦ q m.2

variable {q : Text → Bool}

theorem match?_eq_first (a : Regex ν) (t : Text) : a.match? t = a.first (fun _ ↦ true) t := by
  rw [match?, first]
  cases a.ways t <;> rfl

theorem of_first_eq_some (h : a.first q t = some m) : q m.2 := by
  rw [first] at h
  exact List.find?_some (p := fun m : Match ν ↦ q m.2) h

theorem first_of_ways_eq_nil (h : a.ways t = []) (q : Text → Bool) : a.first q t = none := by
  rw [first, h, List.find?_nil]

theorem first_of_forall_eq (hm : m ∈ a.ways t) (h : ∀ m' ∈ a.ways t, m' = m) (q : Text → Bool) :
    a.first q t = if q m.2 then some m else none := by
  rw [first]
  by_cases hq : q m.2
  · rw [if_pos hq]
    cases hfind : (a.ways t).find? fun m ↦ q m.2 with
    | none => exact absurd hq (List.find?_eq_none.mp hfind m hm)
    | some m' => rw [h m' (List.mem_of_find?_eq_some hfind)]
  · rw [if_neg hq, List.find?_eq_none]
    intro m' hm'
    rwa [h m' hm']

theorem first_empty (q : Text → Bool) (t : Text) :
    (empty : Regex ν).first q t = if q t then some ([], t) else none := by
  rw [first, ways, List.find?_singleton]

theorem first_alt (a b : Regex ν) (q : Text → Bool) (t : Text) :
    (alt a b).first q t = (a.first q t).or (b.first q t) :=
  List.find?_append

theorem first_oneOf (l : List (Regex ν)) (q : Text → Bool) (t : Text) :
    (oneOf l).first q t = l.findSome? (·.first q t) := by
  induction l with
  | nil => cases t <;> rfl
  | cons a l ih =>
    rw [oneOf, first_alt, ih, List.findSome?_cons]
    cases a.first q t <;> rfl

theorem first_opt (a : Regex ν) (q : Text → Bool) (t : Text) :
    (opt a).first q t = (a.first q t).or (if q t then some ([], t) else none) := by
  rw [opt, first_alt, first_empty]

theorem first_capture (name : ν) (a : Regex ν) (q : Text → Bool) (t : Text) :
    (capture name a).first q t =
      (a.first q t).map fun m ↦ ((name, t.take (t.length - m.2.length)) :: m.1, m.2) := by
  rw [first, ways, List.find?_map]
  rfl

theorem first_capture_of_append {captured : List (ν × Text)} {u rest : Text} (name : ν)
    (ht : t = u ++ rest) (h : a.first q t = some (captured, rest)) :
    (capture name a).first q t = some ((name, u) :: captured, rest) := by
  have htake : t.take (t.length - rest.length) = u := by
    rw [ht, List.length_append, Nat.add_sub_cancel, List.take_left]
  rw [first_capture, h, Option.map_some, htake]

theorem first_capture_of_none (name : ν) (h : a.first q t = none) : (capture name a).first q t = none := by
  rw [first_capture, h, Option.map_none]

theorem first_opt_capture_of_append {captured : List (ν × Text)} {u rest : Text} (name : ν)
    (ht : t = u ++ rest) (h : a.first q t = some (captured, rest)) :
    (opt (capture name a)).first q t = some ((name, u) :: captured, rest) := by
  rw [first_opt, first_capture_of_append name ht h, Option.some_or]

theorem first_opt_capture_of_none (name : ν) (h : a.first q t = none) :
    (opt (capture name a)).first q t = if q t then some ([], t) else none := by
  rw [first_opt, first_capture_of_none name h, Option.none_or]

theorem first_seq_eq_findSome? (a b : Regex ν) (q : Text → Bool) (t : Text) :
    (seq a b).first q t = (a.ways t).findSome? fun m ↦ (b.first q m.2).map (·.prepend m.1) := by
  rw [first, ways, List.find?_flatMap]
  congr 1
  funext m
  rw [List.find?_map]
  rfl

theorem first_seq_one (p : Char → Bool) (a : Regex ν) (q : Text → Bool) (c : Char) (t : Text) :
    (seq (one p) a).first q (c :: t) = if p c then a.first q t else none := by
  rw [first_seq_eq_findSome?, ways]
  by_cases hc : p c <;> simp [hc]

theorem ways_seq_assoc (a b c : Regex ν) (t : Text) :
    (seq (seq a b) c).ways t = (seq a (seq b c)).ways t := by
  simp only [ways, List.flatMap_assoc, List.flatMap_map, List.map_flatMap, List.map_map]
  congr 1
  funext m
  congr 1
  funext m'
  simp [Function.comp_def, Match.prepend]

theorem first_seq_assoc (a b c : Regex ν) (q : Text → Bool) (t : Text) :
    (seq (seq a b) c).first q t = (seq a (seq b c)).first q t := by
  rw [first, ways_seq_assoc, first]

theorem first_star (h : ∀ m ∈ a.ways t, m.2.length < t.length) (q : Text → Bool) :
    (star a).first q t = ((plus a).first q t).or (if q t then some ([], t) else none) := by
  have hall : (a.ways t).filter (fun m ↦ m.2.length < t.length) = a.ways t :=
    List.filter_eq_self.mpr fun m hm ↦ decide_eq_true (h m hm)
  rw [first, ways_star, hall, List.find?_append, List.find?_singleton, first, plus, ways]

/-- If what comes next asks for `q'` and nothing else, there is no way back into `a`. -/
theorem first_seq {q' : Text → Bool} (hb : ∀ t, (b.first q t).isSome = q' t) (a : Regex ν) (t : Text) :
    (seq a b).first q t = (a.first q' t).bind fun m ↦ (b.first q m.2).map (·.prepend m.1) := by
  rw [first_seq_eq_findSome?, first]
  induction a.ways t with
  | nil => rfl
  | cons m l ih =>
    have hm := hb m.2
    rw [List.findSome?_cons, List.find?_cons, ← hm]
    cases hfirst : b.first q m.2 with
    | none => exact ih
    | some m' => simp [hfirst]

/-- All of the characters go, if what comes next cannot do with a text that starts with one of them. -/
theorem first_seq_star_of_none (hb : ∀ c t, p c → b.first q (c :: t) = none) (t : Text) :
    (seq (star (one p)) b).first q t = b.first q (t.dropWhile p) := by
  induction t with
  | nil =>
    rw [first_seq_eq_findSome?, ways_star_one_of_not (by simp)]
    simp
  | cons c t ih =>
    rw [first_seq_eq_findSome?] at ih ⊢
    by_cases hc : p c
    · rw [ways_star_one_cons hc, List.findSome?_append, ih, List.dropWhile_cons_of_pos hc]
      simp [hb c t hc]
    · rw [ways_star_one_of_not (by simpa using hc), List.dropWhile_cons_of_neg hc]
      simp

/-- All of the characters go or all but the last one, if what comes next takes nothing off a text that starts
with one of them. -/
theorem first_seq_star_of_some (hb : ∀ c t, p c → b.first q (c :: t) = some ([], c :: t)) (t : Text) :
    (seq (star (one p)) b).first q t = (b.first q (t.dropWhile p)).or
      ((t.takeWhile p).getLast?.map fun c ↦ ([], c :: t.dropWhile p)) := by
  induction t with
  | nil =>
    rw [first_seq_eq_findSome?, ways_star_one_of_not (by simp)]
    simp
  | cons c t ih =>
    rw [first_seq_eq_findSome?] at ih ⊢
    by_cases hc : p c
    · rw [ways_star_one_cons hc, List.findSome?_append, ih, List.dropWhile_cons_of_pos hc,
        List.takeWhile_cons_of_pos hc, Option.or_assoc, List.getLast?_cons]
      have hsplit := List.takeWhile_append_dropWhile (p := p) (l := t)
      cases hlast : (t.takeWhile p).getLast? with
      | some d => simp
      | none =>
        rw [List.getLast?_eq_none_iff.mp hlast, List.nil_append] at hsplit
        simp [hb c t hc, hsplit]
    · rw [ways_star_one_of_not (by simpa using hc), List.dropWhile_cons_of_neg hc,
        List.takeWhile_cons_of_neg hc]
      simp

theorem first_seq_plus_of_some (hb : ∀ c t, p c → b.first q (c :: t) = some ([], c :: t)) (t : Text) :
    (seq (plus (one p)) b).first q t = if t.takeWhile p = [] then none
      else (b.first q (t.dropWhile p)).or
        ((t.takeWhile p).tail.getLast?.map fun c ↦ ([], c :: t.dropWhile p)) := by
  rw [plus, first_seq_assoc]
  rcases t with _ | ⟨c, t⟩
  · rfl
  · rw [first_seq_one]
    by_cases hc : p c
    · rw [if_pos hc, first_seq_star_of_some hb, List.takeWhile_cons_of_pos hc,
        List.dropWhile_cons_of_pos hc, if_neg (List.cons_ne_nil _ _), List.tail_cons]
    · rw [if_neg hc, List.takeWhile_cons_of_neg hc, if_pos rfl]

theorem first_seq_empty (a : Regex ν) (q : Text → Bool) (t : Text) :
    (seq a empty).first q t = a.first q t := by
  rw [first_seq_eq_findSome?, first]
  induction a.ways t with
  | nil => rfl
  | cons m l ih =>
    rw [List.findSome?_cons, List.find?_cons, first_empty, ih]
    cases q m.2 <;> simp [Match.prepend]

theorem first_star_one (hq : ∀ c t, p c → q (c :: t)) (t : Text) :
    (star (one p) : Regex ν).first q t =
      if q (t.dropWhile p) then some ([], t.dropWhile p)
      else (t.takeWhile p).getLast?.map fun c ↦ ([], c :: t.dropWhile p) := by
  have hempty : ∀ c t, p c → (empty : Regex ν).first q (c :: t) = some ([], c :: t) := by
    intro c t hc
    rw [first_empty, if_pos (hq c t hc)]
  rw [← first_seq_empty, first_seq_star_of_some hempty, first_empty]
  cases q (t.dropWhile p) <;> simp

theorem ways_word (w t : Text) :
    (word w : Regex ν).ways t = ((cutWord w t).map fun (_, rest) ↦ ([], rest)).toList := by
  induction w generalizing t with
  | nil => rfl
  | cons c w ih =>
    have hword : (word (c :: w) : Regex ν) = seq (one (·.toLower = c)) (word w) := rfl
    rw [hword, ways]
    rcases t with _ | ⟨d, t⟩
    · rfl
    · rw [ways, cutWord]
      by_cases hd : d.toLower = c
      · rw [if_pos (decide_eq_true hd), if_pos hd, List.flatMap_singleton, ih, Option.map_map]
        cases cutWord w t <;> rfl
      · rw [if_neg (by simpa using hd), if_neg hd]
        rfl

theorem mem_ways_word {w : Text} :
    m ∈ (word w).ways t ↔ m.1 = [] ∧ ∃ u, t = u ++ m.2 ∧ u.map Char.toLower = w := by
  rw [ways_word, Option.mem_toList, Option.map_eq_some_iff]
  constructor
  · rintro ⟨⟨u, rest⟩, hcut, rfl⟩
    exact ⟨rfl, u, cutWord_eq_some_iff.mp hcut⟩
  · rintro ⟨hm, u, h⟩
    exact ⟨(u, m.2), cutWord_eq_some_iff.mpr h, Prod.ext hm.symm rfl⟩

theorem first_seq_word (w : Text) (a : Regex ν) (q : Text → Bool) (t : Text) :
    (seq (word w) a).first q t = (cutWord w t).bind fun (_, rest) ↦ a.first q rest := by
  rw [first_seq_eq_findSome?, ways_word]
  cases cutWord w t <;> simp

theorem first_word (w : Text) (q : Text → Bool) (t : Text) : (word w : Regex ν).first q t =
    (cutWord w t).bind fun (_, rest) ↦ if q rest then some ([], rest) else none := by
  rw [← first_seq_empty, first_seq_word]
  simp only [first_empty]

end Regex

end FreeForm
