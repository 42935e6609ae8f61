import FreeForm.Toml.Scalar
import Mathlib.Data.List.Basic

namespace FreeForm

namespace Toml

structure IsNumeral (t : Text) : Prop where
  ne_nil : t ≠ []
  digits : ∀ c ∈ t, isDigit c
  zero : ∀ digits, t = '0' :: digits → digits = []

variable {t digits : Text} {p : Char → Bool}

theorem toDigits_ne_zero_cons {n : Nat} (hn : 0 < n) (digits : Text) :
    Nat.toDigits 10 n ≠ '0' :: digits := by
  induction n using Nat.strongRecOn generalizing digits with
  | ind n ih =>
    intro h
    rcases Nat.lt_or_ge n 10 with hlt | hge
    · have hchar : ∀ m < 10, m.digitChar = '0' → m = 0 := by decide
      rw [Nat.toDigits_of_lt_base hlt] at h
      exact absurd (hchar n hlt (List.cons.inj h).1) (Nat.ne_of_gt hn)
    · rw [Nat.toDigits_of_base_le (by decide) hge] at h
      obtain ⟨c, rest, hc⟩ := List.exists_cons_of_ne_nil (Nat.toDigits_ne_nil (n := n / 10) (b := 10))
      rw [hc] at h
      obtain ⟨rfl, -⟩ := List.cons.inj h
      exact ih (n / 10) (Nat.div_lt_self hn (by decide)) (Nat.div_pos hge (by decide)) rest hc

theorem isNumeral_ofNat (n : Nat) : IsNumeral (Text.ofNat n) := by
  refine ⟨Nat.toDigits_ne_nil, fun c hc ↦ ?_, fun digits hdigits ↦ ?_⟩
  · exact Nat.isDigit_of_mem_toDigits (by decide) (by decide) hc
  · rcases Nat.eq_zero_or_pos n with rfl | hn
    · exact ((List.cons.inj hdigits).2).symm
    · exact absurd hdigits (toDigits_ne_zero_cons hn digits)

theorem valueOf_ofNat (n : Nat) : valueOf 10 (Text.ofNat n) = n := by
  have hdigit : ∀ value, ∀ c ∈ Text.ofNat n,
      10 * value + (hexValue? c).getD 0 = 10 * value + (c.toNat - '0'.toNat) := by
    intro value c hc
    have hc : '0' ≤ c && c ≤ '9' := (isNumeral_ofNat n).digits c hc
    rw [hexValue?, if_pos hc, Option.getD_some]
  rw [valueOf, List.foldl_ext _ _ 0 hdigit, ← Nat.ofDigitChars_eq_foldl]
  exact Nat.ofDigitChars_ten_toDigits

theorem ne_of_class {c d : Char} (hc : p c) (hd : p d = false) : c ≠ d := by
  rintro rfl
  rw [hd] at hc
  cases hc

theorem cutMoreDigits_digits (h : ∀ c ∈ digits, isDigit c) (rest : Text) :
    cutMoreDigits isDigit (digits ++ '\n' :: rest) = (digits, '\n' :: rest) := by
  induction digits with
  | nil => rfl
  | cons c digits ih =>
    obtain ⟨hc, hdigits⟩ := List.forall_mem_cons.mp h
    rw [List.cons_append, cutMoreDigits, if_pos hc, ih hdigits]
    rintro _ _ rfl
    exact absurd hc (by decide)

theorem cutWhole_numeral (h : IsNumeral t) (rest : Text) :
    cutWhole (t ++ '\n' :: rest) = some (t, '\n' :: rest) := by
  obtain ⟨c, digits, rfl⟩ := List.exists_cons_of_ne_nil h.ne_nil
  obtain ⟨hc, hdigits⟩ := List.forall_mem_cons.mp h.digits
  by_cases hzero : c = '0'
  · subst hzero
    rw [h.zero digits rfl]
    rfl
  · rw [List.cons_append, cutWhole, cutDigits, if_pos hc, cutMoreDigits_digits hdigits]
    intro _ heq
    exact hzero (List.cons.inj heq).1

theorem cutFixed_digits {k value : Nat} {rest u : Text} (h : ∀ c ∈ t, isDigit c)
    (hcut : cutFixed k (t ++ '\n' :: rest) = some (value, u)) :
    ∃ digits, u = digits ++ '\n' :: rest ∧ ∀ c ∈ digits, isDigit c := by
  simp only [cutFixed] at hcut
  split at hcut
  · next htake =>
    obtain ⟨-, rfl⟩ := Prod.mk.inj (Option.some.inj hcut)
    rw [Bool.and_eq_true, decide_eq_true_iff, List.all_eq_true] at htake
    have hk : k ≤ t.length := by
      by_contra hlt
      have hmem : '\n' ∈ (t ++ '\n' :: rest).take k := by
        obtain ⟨j, hj⟩ : ∃ j, k - t.length = j + 1 := ⟨k - t.length - 1, by omega⟩
        rw [List.take_append, hj, List.take_succ_cons]
        simp
      exact absurd (htake.2 '\n' hmem) (by decide)
    refine ⟨t.drop k, List.drop_append_of_le_length hk, fun c hc ↦ ?_⟩
    exact h c (List.mem_of_mem_drop hc)
  · cases hcut

theorem cutChar_digits {c : Char} {rest : Text} (hc : isDigit c = false) (hnewline : '\n' ≠ c)
    (h : ∀ d ∈ t, isDigit d) : cutChar c (t ++ '\n' :: rest) = none := by
  cases t with
  | nil => exact if_neg hnewline
  | cons d t => exact if_neg (ne_of_class (h d List.mem_cons_self) hc)

theorem cutDate_digits (h : ∀ c ∈ t, isDigit c) (rest : Text) : cutDate (t ++ '\n' :: rest) = none := by
  rw [cutDate]
  cases hcut : cutFixed 4 (t ++ '\n' :: rest) with
  | none => rfl
  | some cut =>
    obtain ⟨year, u⟩ := cut
    obtain ⟨digits, rfl, hdigits⟩ := cutFixed_digits h hcut
    have hchar : cutChar '-' (digits ++ '\n' :: rest) = none :=
      cutChar_digits (by decide) (by decide) hdigits
    simp only [Option.bind_eq_bind, Option.bind_some, hchar, Option.bind_none]

theorem cutTime_digits (h : ∀ c ∈ t, isDigit c) (rest : Text) : cutTime (t ++ '\n' :: rest) = none := by
  rw [cutTime]
  cases hcut : cutField 0 23 (t ++ '\n' :: rest) with
  | none => rfl
  | some cut =>
    obtain ⟨hour, u⟩ := cut
    obtain ⟨digits, rfl, hdigits⟩ := cutFixed_digits h (Option.eq_some_of_filter_eq_some hcut)
    have hchar : cutChar ':' (digits ++ '\n' :: rest) = none :=
      cutChar_digits (by decide) (by decide) hdigits
    simp only [Option.bind_eq_bind, Option.bind_some, hchar, Option.bind_none]

theorem cutDatetime_digits (h : ∀ c ∈ t, isDigit c) (rest : Text) :
    cutDatetime (t ++ '\n' :: rest) = none := by
  rw [cutDatetime, cutDate_digits h, cutTime_digits h]
  rfl

theorem cutSign_numeral (h : IsNumeral t) (rest : Text) :
    cutSign (t ++ '\n' :: rest) = (false, t ++ '\n' :: rest) := by
  obtain ⟨c, digits, rfl⟩ := List.exists_cons_of_ne_nil h.ne_nil
  have hc := h.digits c List.mem_cons_self
  rw [List.cons_append, cutSign]
  · intro _ heq
    exact ne_of_class hc (by decide) (List.cons.inj heq).1
  · intro _ heq
    exact ne_of_class hc (by decide) (List.cons.inj heq).1

theorem cutFloat_numeral (h : IsNumeral t) (rest : Text) : cutFloat (t ++ '\n' :: rest) = none := by
  rw [cutFloat, cutSign_numeral h]
  dsimp only
  rw [cutWhole_numeral h]
  rfl

theorem cutSpecialFloat_numeral (h : IsNumeral t) (rest : Text) :
    cutSpecialFloat (t ++ '\n' :: rest) = none := by
  obtain ⟨c, digits, rfl⟩ := List.exists_cons_of_ne_nil h.ne_nil
  have hc := h.digits c List.mem_cons_self
  rw [cutSpecialFloat, cutSign_numeral h]
  split
  · next heq => exact absurd (List.cons.inj (Prod.mk.inj heq).2).1 (ne_of_class hc (by decide))
  · next heq => exact absurd (List.cons.inj (Prod.mk.inj heq).2).1 (ne_of_class hc (by decide))
  · rfl

theorem cutInteger_numeral (h : IsNumeral t) (rest : Text) :
    cutInteger (t ++ '\n' :: rest) = (integer? (valueOf 10 t)).map fun item ↦ (item, '\n' :: rest) := by
  have hbase {c : Char} (hnewline : '\n' ≠ c) (u : Text) :
      t ++ '\n' :: rest = '0' :: c :: u → False := by
    intro heq
    obtain ⟨d, digits, rfl⟩ := List.exists_cons_of_ne_nil h.ne_nil
    obtain ⟨rfl, hrest⟩ := List.cons.inj heq
    rw [h.zero digits rfl] at hrest
    exact hnewline (List.cons.inj hrest).1
  rw [cutInteger, cutSign_numeral h]
  · dsimp only
    rw [cutWhole_numeral h, Option.bind_eq_bind, Option.bind_some]
    simp only [Bool.false_eq_true, if_false, Option.map_eq_bind]
    rfl
  · exact hbase (by decide)
  · exact hbase (by decide)
  · exact hbase (by decide)

theorem orElse_eq_last {α : Type} {a b c d : Option α} (ha : a = none) (hb : b = none) (hc : c = none) :
    (a <|> b <|> c <|> d) = d := by
  subst ha hb hc
  rfl

theorem cutNumber_numeral (h : IsNumeral t) (rest : Text) :
    cutNumber (t ++ '\n' :: rest) = (integer? (valueOf 10 t)).map fun item ↦ (item, '\n' :: rest) := by
  rw [cutNumber, ← cutInteger_numeral h]
  exact orElse_eq_last (cutDatetime_digits h.digits rest) (cutFloat_numeral h rest)
    (cutSpecialFloat_numeral h rest)

theorem integer?_of_lt {n : Nat} (h : n < integerLimit) : integer? n = some (.integer n) := by
  rw [integer?, if_pos]
  rw [Bool.and_eq_true, decide_eq_true_iff, decide_eq_true_iff]
  omega

theorem cutNumber_ofNat {n : Nat} (h : n < integerLimit) (rest : Text) :
    cutNumber (Text.ofNat n ++ '\n' :: rest) = some (.integer n, '\n' :: rest) := by
  rw [cutNumber_numeral (isNumeral_ofNat n), valueOf_ofNat, integer?_of_lt h]
  rfl

end Toml

end FreeForm
