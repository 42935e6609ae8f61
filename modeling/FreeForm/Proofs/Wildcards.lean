import FreeForm.Glob
import Mathlib.Data.List.Chain

namespace FreeForm

namespace Glob

/-- What a token leaves of a text. `*` takes any beginning, `**` whole path components with their slashes,
or all of the text, and the others take one character. -/
def Token.Leaves : Token → Text → Text → Prop
  | anySequence, t, rest => rest <:+ t
  | anyComponents, t, rest => rest = t ∨ rest = [] ∨ ∃ taken, t = taken ++ '/' :: rest
  | token, t, rest => ∃ c, t = c :: rest ∧ token.accepts c

def Matches : List Token → Text → Prop
  | [], t => t = []
  | token :: tokens, t => ∃ rest, token.Leaves t rest ∧ Matches tokens rest

def Token.isWildcard : Token → Bool
  | anySequence | anyComponents => true
  | _ => false

theorem Token.leaves_of_not_isWildcard {token : Token} (h : token.isWildcard = false) (t rest : Text) :
    token.Leaves t rest ↔ ∃ c, t = c :: rest ∧ token.accepts c := by
  cases token <;> first | rfl | cases h

theorem Token.leaves_self {token : Token} (h : token.isWildcard) (t : Text) : token.Leaves t t := by
  cases token <;> simp_all [isWildcard, Leaves]

theorem Token.Leaves.trans {token : Token} (h : token.isWildcard) {t rest rest' : Text}
    (hrest : token.Leaves t rest) (hrest' : token.Leaves rest rest') : token.Leaves t rest' := by
  cases token with
  | anySequence => exact List.IsSuffix.trans hrest' hrest
  | anyComponents =>
    rcases hrest with rfl | rfl | ⟨taken, rfl⟩
    · exact hrest'
    · rcases hrest' with rfl | rfl | ⟨taken, htaken⟩
      · exact Or.inr (Or.inl rfl)
      · exact Or.inr (Or.inl rfl)
      · simp at htaken
    · rcases hrest' with rfl | rfl | ⟨taken', rfl⟩
      · exact Or.inr (Or.inr ⟨taken, rfl⟩)
      · exact Or.inr (Or.inl rfl)
      · exact Or.inr (Or.inr ⟨taken ++ '/' :: taken', by simp⟩)
  | _ => cases h

theorem Token.Leaves.suffix {t rest : Text} {token : Token} (h : token.Leaves t rest) :
    rest <:+ t := by
  cases token with
  | anySequence => exact h
  | anyComponents =>
    rcases h with rfl | rfl | ⟨taken, rfl⟩
    · exact List.suffix_rfl
    · exact List.nil_suffix
    · exact ⟨taken ++ ['/'], by simp⟩
  | _ =>
    obtain ⟨c, rfl, -⟩ := h
    exact List.suffix_cons _ _

/-- The verdicts are right about `M`, and `exhausted` about all that the wildcard can leave as well. -/
structure Decides (verdict : Text → Verdict) (wildcard : Token) (M : Text → Prop) : Prop where
  matched : ∀ {t}, verdict t = .matched → M t
  mismatched : ∀ {t}, verdict t = .mismatched → ¬M t
  exhausted : ∀ {t}, verdict t = .exhausted → ∀ rest, wildcard.Leaves t rest → ¬M rest

section

variable {next : Text → Verdict} {wildcard : Token} {M : Text → Prop}

/-- What a wildcard leaves of a text if it takes something, unless there is nothing to take. -/
def Token.LeavesLess (wildcard : Token) (t rest : Text) : Prop :=
  if wildcard = .anyComponents then rest = [] ∨ ∃ taken, t = taken ++ '/' :: rest else rest <:+ t.tail

theorem suffix_iff_eq_or_tail {t rest : Text} : rest <:+ t ↔ rest = t ∨ rest <:+ t.tail := by
  cases t with
  | nil => simp
  | cons c t => exact List.suffix_cons_iff

theorem leaves_iff (h : wildcard.isWildcard) (t rest : Text) :
    wildcard.Leaves t rest ↔ rest = t ∨ wildcard.LeavesLess t rest := by
  cases wildcard with
  | anySequence => exact suffix_iff_eq_or_tail
  | anyComponents => rfl
  | _ => cases h

theorem exists_cons_eq_append_iff {c : Char} {t rest : Text} :
    (∃ taken, c :: t = taken ++ '/' :: rest) ↔
      c = '/' ∧ rest = t ∨ ∃ taken, t = taken ++ '/' :: rest := by
  constructor
  · rintro ⟨taken, h⟩
    rcases taken with _ | ⟨d, taken⟩
    · obtain ⟨rfl, rfl⟩ := List.cons.inj h
      exact Or.inl ⟨rfl, rfl⟩
    · exact Or.inr ⟨taken, (List.cons.inj h).2⟩
  · rintro (⟨rfl, rfl⟩ | ⟨taken, rfl⟩)
    · exact ⟨[], rfl⟩
    · exact ⟨c :: taken, rfl⟩

theorem leavesLess_cons {c : Char} (t rest : Text) : wildcard.LeavesLess (c :: t) rest ↔
    (wildcard = .anyComponents → c = '/') ∧ rest = t ∨ wildcard.LeavesLess t rest := by
  rw [Token.LeavesLess, Token.LeavesLess]
  split
  · next hw =>
    rw [exists_cons_eq_append_iff]
    simp only [hw, forall_const]
    exact or_left_comm
  · next hw =>
    simp only [hw, false_implies, true_and]
    exact suffix_iff_eq_or_tail

def attempt (wildcard : Token) (next : Text → Verdict) (t : Text) : Verdict :=
  match next t with
  | .mismatched => sweep (wildcard = .anyComponents) next t
  | v => v

theorem compareTokens_wildcard {token : Token} (h : token.isWildcard) (tokens : List Token) :
    compareTokens (token :: tokens) = attempt token (compareTokens tokens) := by
  funext t
  cases token with
  | anySequence | anyComponents => cases t <;> rfl
  | _ => cases h

theorem compareTokens_one {token : Token} (h : token.isWildcard = false) (tokens : List Token)
    (c : Char) (t : Text) :
    compareTokens (token :: tokens) (c :: t) =
      if token.accepts c then compareTokens tokens t else .mismatched := by
  cases token with
  | anySequence | anyComponents => cases h
  | _ => simp [compareTokens]

theorem compareTokens_one_nil {token : Token} (h : token.isWildcard = false) (tokens : List Token) :
    compareTokens (token :: tokens) [] = .exhausted := by
  cases token with
  | anySequence | anyComponents => cases h
  | _ => simp [compareTokens]

/-- A sweep finds a rest that matches if there is one, whatever it leaves out. -/
theorem sweep_spec (hw : wildcard.isWildcard) (h : Decides next wildcard M) (t : Text) :
    (sweep (wildcard = .anyComponents) next t = .matched →
        ∃ rest, wildcard.LeavesLess t rest ∧ M rest) ∧
      (sweep (wildcard = .anyComponents) next t ≠ .matched →
        ∀ rest, wildcard.LeavesLess t rest → ¬M rest) := by
  induction t with
  | nil =>
    have hnil : ∀ rest, wildcard.LeavesLess [] rest ↔ rest = [] := by
      intro rest
      rw [Token.LeavesLess]
      split <;> simp
    refine ⟨fun hmatched ↦ ⟨[], (hnil []).mpr rfl, h.matched hmatched⟩, ?_⟩
    intro hne rest hrest
    obtain rfl := (hnil rest).mp hrest
    cases hverdict : next [] with
    | matched => exact absurd hverdict hne
    | mismatched => exact h.mismatched hverdict
    | exhausted => exact h.exhausted hverdict [] (Token.leaves_self hw [])
  | cons c t ih =>
    by_cases hskip : wildcard = .anyComponents ∧ c ≠ '/'
    · have hsweep : sweep (wildcard = .anyComponents) next (c :: t) =
          sweep (wildcard = .anyComponents) next t := by
        simp [sweep, hskip]
      have hless : ∀ rest, wildcard.LeavesLess (c :: t) rest ↔ wildcard.LeavesLess t rest := by
        intro rest
        rw [leavesLess_cons]
        simp [hskip]
      simpa only [hsweep, hless] using ih
    · have hsweep : sweep (wildcard = .anyComponents) next (c :: t) = attempt wildcard next t := by
        rw [sweep, if_neg (by simpa using hskip)]
        cases hverdict : next t <;> simp [attempt, hverdict]
      have hless : ∀ rest, wildcard.LeavesLess (c :: t) rest ↔
          rest = t ∨ wildcard.LeavesLess t rest := by
        intro rest
        have hslash : wildcard = .anyComponents → c = '/' := fun heq ↦ by
          simpa [heq] using hskip
        rw [leavesLess_cons, and_iff_right hslash]
      simp only [hsweep, hless, attempt]
      cases hverdict : next t with
      | matched => exact ⟨fun _ ↦ ⟨t, Or.inl rfl, h.matched hverdict⟩, fun hne ↦ absurd rfl hne⟩
      | mismatched =>
        refine ⟨fun hmatched ↦ ?_, fun hne ↦ ?_⟩
        · obtain ⟨rest, hrest, hM⟩ := ih.1 hmatched
          exact ⟨rest, Or.inr hrest, hM⟩
        · rintro rest (rfl | hrest)
          · exact h.mismatched hverdict
          · exact ih.2 hne rest hrest
      | exhausted =>
        refine ⟨fun hmatched ↦ ?_, fun _ rest hrest ↦ ?_⟩
        · cases hmatched
        · exact h.exhausted hverdict rest ((leaves_iff hw t rest).mpr hrest)

theorem decides_attempt (hw : wildcard.isWildcard) (h : Decides next wildcard M) :
    Decides (attempt wildcard next) wildcard fun t ↦ ∃ rest, wildcard.Leaves t rest ∧ M rest := by
  -- The text itself is tried first, and then what the sweep finds.
  have hall (t : Text) (hne : attempt wildcard next t ≠ .matched) :
      ∀ rest, wildcard.Leaves t rest → ¬M rest := by
    intro rest hrest
    cases hverdict : next t with
    | matched => simp [attempt, hverdict] at hne
    | exhausted => exact h.exhausted hverdict rest hrest
    | mismatched =>
      simp only [attempt, hverdict] at hne
      rcases (leaves_iff hw t rest).mp hrest with rfl | hrest
      · exact h.mismatched hverdict
      · exact (sweep_spec hw h t).2 hne rest hrest
  constructor
  · intro t hmatched
    cases hverdict : next t with
    | matched => exact ⟨t, Token.leaves_self hw t, h.matched hverdict⟩
    | exhausted => simp [attempt, hverdict] at hmatched
    | mismatched =>
      simp only [attempt, hverdict] at hmatched
      obtain ⟨rest, hrest, hM⟩ := (sweep_spec hw h t).1 hmatched
      exact ⟨rest, (leaves_iff hw t rest).mpr (Or.inr hrest), hM⟩
  · rintro t hverdict ⟨rest, hrest, hM⟩
    exact hall t (by simp [hverdict]) rest hrest hM
  · rintro t hverdict rest hrest ⟨rest', hrest', hM⟩
    exact hall t (by simp [hverdict]) rest' (hrest.trans hw hrest') hM

theorem decides_one {token : Token} {tokens : List Token} (hone : token.isWildcard = false)
    (hw : wildcard.isWildcard) (hslash : wildcard = .anyComponents → token = .char '/')
    (h : Decides (compareTokens tokens) wildcard (Matches tokens)) :
    Decides (compareTokens (token :: tokens)) .anySequence (Matches (token :: tokens)) := by
  have hmatches (t : Text) : Matches (token :: tokens) t ↔
      ∃ c rest, t = c :: rest ∧ token.accepts c ∧ Matches tokens rest := by
    simp only [Matches, Token.leaves_of_not_isWildcard hone]
    constructor
    · rintro ⟨rest, ⟨c, rfl, hc⟩, hrest⟩
      exact ⟨c, rest, rfl, hc, hrest⟩
    · rintro ⟨c, rest, rfl, hc, hrest⟩
      exact ⟨rest, ⟨c, rfl, hc⟩, hrest⟩
  constructor
  · intro t hmatched
    rcases t with _ | ⟨c, t⟩
    · simp [compareTokens_one_nil hone] at hmatched
    · rw [compareTokens_one hone] at hmatched
      split at hmatched
      · next hc => exact (hmatches _).mpr ⟨c, t, rfl, hc, h.matched hmatched⟩
      · cases hmatched
  · intro t hverdict ht
    obtain ⟨c, rest, rfl, hc, hrest⟩ := (hmatches t).mp ht
    rw [compareTokens_one hone, if_pos hc] at hverdict
    exact h.mismatched hverdict hrest
  · intro t hverdict v hv hmatch
    obtain ⟨d, rest, rfl, hd, hrest⟩ := (hmatches v).mp hmatch
    rcases t with _ | ⟨c, t⟩
    · simp [Token.Leaves] at hv
    · rw [compareTokens_one hone] at hverdict
      split at hverdict
      · refine h.exhausted hverdict rest ?_ hrest
        rcases List.suffix_cons_iff.mp hv with heq | hsuffix
        · obtain ⟨-, rfl⟩ := List.cons.inj heq
          exact Token.leaves_self hw rest
        · cases wildcard with
          | anySequence => exact (List.suffix_cons d rest).trans hsuffix
          | anyComponents =>
            obtain rfl := hslash rfl
            obtain rfl : d = '/' := by simpa [Token.accepts] using hd
            obtain ⟨taken, rfl⟩ := hsuffix
            exact Or.inr (Or.inr ⟨taken, rfl⟩)
          | _ => cases hw
      · cases hverdict

end

def Token.endsComponent : Token → Bool
  | char c => c = '/'
  | anyComponents => true
  | _ => false

theorem Token.endsComponent_char (c : Char) : (char c).endsComponent ↔ c = '/' :=
  decide_eq_true_iff

/-- Each `**` stands where a path component starts. -/
def IsPlaced (tokens : List Token) : Prop :=
  tokens.IsChain fun before token ↦ token = .anyComponents → before.endsComponent

def wildcardBefore : List Token → Token
  | .anyComponents :: _ => .anyComponents
  | _ => .anySequence

theorem isWildcard_wildcardBefore (tokens : List Token) : (wildcardBefore tokens).isWildcard := by
  unfold wildcardBefore
  split <;> rfl

theorem wildcardBefore_eq_iff {tokens : List Token} :
    wildcardBefore tokens = .anyComponents ↔ tokens.head? = some .anyComponents := by
  rcases tokens with _ | ⟨token, tokens⟩
  · simp [wildcardBefore]
  · cases token <;> simp [wildcardBefore]

theorem Decides.of_anySequence {next : Text → Verdict} {M : Text → Prop}
    (h : Decides next .anySequence M) : Decides next .anyComponents M :=
  ⟨h.matched, h.mismatched, fun hverdict rest hrest ↦ h.exhausted hverdict rest hrest.suffix⟩

/-- The search is right about all tokens in which each `**` stands in its place. -/
theorem decides_compareTokens {tokens : List Token} (h : IsPlaced tokens) :
    Decides (compareTokens tokens) (wildcardBefore tokens) (Matches tokens) := by
  induction tokens with
  | nil =>
    constructor <;> intro t hverdict <;> rcases t with _ | ⟨c, t⟩ <;>
      simp_all [compareTokens, Matches]
  | cons token tokens ih =>
    obtain ⟨hhead, htail⟩ := List.isChain_cons.mp h
    have hnext := ih htail
    have hends (hbefore : wildcardBefore tokens = .anyComponents) : token.endsComponent :=
      hhead _ (wildcardBefore_eq_iff.mp hbefore) rfl
    cases token with
    | anySequence =>
      have hbefore : wildcardBefore tokens = .anySequence := by
        cases hcase : wildcardBefore tokens with
        | anySequence => rfl
        | anyComponents => cases hends hcase
        | _ => simpa [hcase, Token.isWildcard] using isWildcard_wildcardBefore tokens
      rw [hbefore] at hnext
      rw [compareTokens_wildcard rfl]
      exact decides_attempt rfl hnext
    | anyComponents =>
      have hnext' : Decides (compareTokens tokens) .anyComponents (Matches tokens) := by
        cases hcase : wildcardBefore tokens with
        | anySequence => exact (hcase ▸ hnext).of_anySequence
        | anyComponents => exact hcase ▸ hnext
        | _ => simpa [hcase, Token.isWildcard] using isWildcard_wildcardBefore tokens
      rw [compareTokens_wildcard rfl]
      exact decides_attempt rfl hnext'
    | char c =>
      refine decides_one rfl (isWildcard_wildcardBefore tokens) (fun hbefore ↦ ?_) hnext
      rw [(Token.endsComponent_char c).mp (hends hbefore)]
    | anyChar | oneOf | noneOf =>
      refine decides_one rfl (isWildcard_wildcardBefore tokens) (fun hbefore ↦ ?_) hnext
      cases hends hbefore

theorem compareTokens_eq_matched_iff {tokens : List Token} (h : IsPlaced tokens) (t : Text) :
    compareTokens tokens t = .matched ↔ Matches tokens t := by
  have hdecides := decides_compareTokens h
  refine ⟨hdecides.matched, fun ht ↦ ?_⟩
  cases hverdict : compareTokens tokens t with
  | matched => rfl
  | mismatched => exact absurd ht (hdecides.mismatched hverdict)
  | exhausted =>
    exact absurd ht (hdecides.exhausted hverdict t
      (Token.leaves_self (isWildcard_wildcardBefore tokens) t))

/-- The tokens read so far, with `before` as the last character of the pattern behind which they end. -/
structure IsRead (before : Option Char) (tokens : List Token) : Prop where
  placed : IsPlaced tokens
  ends : before = none ∨ before = some '/' → ∀ token ∈ tokens.getLast?, token.endsComponent

theorem IsRead.concat {before : Option Char} {tokens : List Token} (h : IsRead before tokens)
    {token : Token} (hone : token ≠ .anyComponents) {c : Char} (hc : c = '/' → token.endsComponent) :
    IsRead (some c) (tokens ++ [token]) := by
  constructor
  · refine List.isChain_append.mpr ⟨h.placed, List.isChain_singleton _, ?_⟩
    intro last _ next hnext heq
    obtain rfl : token = next := by simpa using hnext
    exact absurd heq hone
  · rintro hslash last hlast
    obtain rfl : token = last := by simpa using hlast
    exact hc (by simpa using hslash)

theorem IsRead.addComponents {before : Option Char} {tokens : List Token} (h : IsRead before tokens)
    (hbefore : before = none ∨ before = some '/') : IsRead (some '/') (addComponents tokens) := by
  rw [Glob.addComponents]
  split
  · exact ⟨h.placed, fun _ ↦ h.ends hbefore⟩
  · constructor
    · refine List.isChain_append.mpr ⟨h.placed, List.isChain_singleton _, ?_⟩
      intro last hlast _ _ _
      exact h.ends hbefore last hlast
    · rintro - last hlast
      obtain rfl : .anyComponents = last := by simpa using hlast
      rfl

theorem ne_anyComponents_of_cutBrackets {t rest : Text} {token : Token}
    (h : cutBrackets t = some (token, rest)) : token ≠ .anyComponents := by
  unfold cutBrackets at h
  split at h <;> obtain ⟨_, _, heq⟩ := Option.map_eq_some_iff.mp h <;>
    · obtain ⟨rfl, -⟩ := Prod.mk.inj heq
      simp

theorem isPlaced_of_parseFrom {position : Nat} {before : Option Char} {tokens result : List Token}
    {t : Text} (h : IsRead before tokens) (hresult : parseFrom position before tokens t = .ok result) :
    IsPlaced result := by
  fun_induction parseFrom position before tokens t with
  | case1 => exact Except.ok.inj hresult ▸ h.placed
  | case2 _ _ _ _ ih => exact ih (h.concat (by simp) (by simp)) hresult
  | case4 _ _ _ hbefore _ _ ih => exact ih (h.addComponents (by simpa using hbefore)) hresult
  | case5 _ _ _ hbefore =>
    exact Except.ok.inj hresult ▸ (h.addComponents (by simpa using hbefore)).placed
  | case8 _ _ _ _ _ _ ih => exact ih (h.concat (by simp) (by simp)) hresult
  | case9 _ _ _ _ _ _ hcut ih =>
    exact ih (h.concat (ne_anyComponents_of_cutBrackets hcut) (by simp)) hresult
  | case11 _ _ _ c _ _ _ _ _ _ ih =>
    exact ih (h.concat (by simp) (Token.endsComponent_char c).mpr) hresult
  | case3 | case6 | case7 | case10 => cases hresult

theorem isPlaced_of_parse {pattern : Text} {g : Glob} (h : parse pattern = .ok g) :
    IsPlaced g.tokens := by
  have hstart : IsRead none [] := ⟨List.isChain_nil, by simp⟩
  rw [parse] at h
  cases hresult : parseFrom 0 none [] pattern with
  | error e =>
    rw [hresult] at h
    cases h
  | ok tokens =>
    rw [hresult] at h
    obtain rfl := Except.ok.inj h
    exact isPlaced_of_parseFrom hstart hresult

/-- A pattern that has been read accepts what its tokens can take apart. -/
theorem accepts_iff {pattern : Text} {g : Glob} (h : parse pattern = .ok g) (t : Text) :
    g.accepts t ↔ Matches g.tokens t := by
  rw [accepts, decide_eq_true_iff]
  exact compareTokens_eq_matched_iff (isPlaced_of_parse h) t

theorem parseFrom_of_plain {t : Text} (h : ∀ c ∈ t, c ≠ '?' ∧ c ≠ '*' ∧ c ≠ '[') (position : Nat)
    (before : Option Char) (tokens : List Token) :
    parseFrom position before tokens t = .ok (tokens ++ t.map .char) := by
  induction t generalizing position before tokens with
  | nil => simp [parseFrom]
  | cons c t ih =>
    obtain ⟨⟨hquestion, hstar, hbracket⟩, ht⟩ := List.forall_mem_cons.mp h
    rw [parseFrom]
    · rw [ih ht]
      simp
    all_goals simp_all

theorem parse_of_plain {t : Text} (h : ∀ c ∈ t, c ≠ '?' ∧ c ≠ '*' ∧ c ≠ '[') :
    parse t = .ok ⟨t.map .char⟩ := by
  rw [parse, parseFrom_of_plain h]
  rfl

theorem Token.Leaves.append {token : Token} {t rest : Text} (h : token.Leaves t rest) (u : Text) :
    token.Leaves (t ++ u) (rest ++ u) ∨ rest = [] ∧ token.Leaves (t ++ u) [] := by
  cases token with
  | anySequence =>
    obtain ⟨taken, rfl⟩ := h
    exact Or.inl ⟨taken, by simp⟩
  | anyComponents =>
    rcases h with rfl | rfl | ⟨taken, rfl⟩
    · exact Or.inl (Or.inl rfl)
    · exact Or.inr ⟨rfl, Or.inr (Or.inl rfl)⟩
    · exact Or.inl (Or.inr (Or.inr ⟨taken, by simp⟩))
  | _ =>
    obtain ⟨c, rfl, hc⟩ := h
    exact Or.inl ⟨c, rfl, hc⟩

theorem Matches.append {tokens : List Token} {wildcard : Token} (hw : wildcard.isWildcard) {t : Text}
    (h : Matches (tokens ++ [wildcard]) t) (u : Text) : Matches (tokens ++ [wildcard]) (t ++ u) := by
  induction tokens generalizing t with
  | nil =>
    refine ⟨[], ?_, rfl⟩
    cases wildcard with
    | anySequence => exact List.nil_suffix
    | anyComponents => exact Or.inr (Or.inl rfl)
    | _ => cases hw
  | cons token tokens ih =>
    obtain ⟨rest, hrest, hmatch⟩ := h
    rcases hrest.append u with hleaves | ⟨rfl, hleaves⟩
    · exact ⟨rest ++ u, hleaves, ih hmatch⟩
    · exact ⟨[], hleaves, hmatch⟩

theorem Matches.length_eq {tokens : List Token} (h : ∀ token ∈ tokens, token.isWildcard = false)
    {t : Text} (ht : Matches tokens t) : t.length = tokens.length := by
  induction tokens generalizing t with
  | nil => exact congrArg List.length ht
  | cons token tokens ih =>
    obtain ⟨htoken, htokens⟩ := List.forall_mem_cons.mp h
    obtain ⟨rest, hleaves, hrest⟩ := ht
    obtain ⟨c, rfl, -⟩ := (Token.leaves_of_not_isWildcard htoken t rest).mp hleaves
    rw [List.length_cons, List.length_cons, ih htokens hrest]

end Glob

end FreeForm
