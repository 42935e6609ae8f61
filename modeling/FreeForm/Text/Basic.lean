namespace FreeForm

abbrev Text := List Char

namespace Text

/-- Positions and lengths in this library count the bytes of the UTF-8 form. -/
def byteLength (t : Text) : Nat :=
  t.foldr (fun c n ↦ c.utf8Size + n) 0

@[simp] theorem byteLength_nil : byteLength [] = 0 := rfl

@[simp] theorem byteLength_cons (c : Char) (t : Text) :
    byteLength (c :: t) = c.utf8Size + byteLength t := rfl

@[simp] theorem byteLength_append (s t : Text) :
    byteLength (s ++ t) = byteLength s + byteLength t := by
  induction s with
  | nil => simp
  | cons c s ih => simp [ih, Nat.add_assoc]

/-- Drops the longest ending whose characters all satisfy `p`. -/
def dropEndWhile (p : Char → Bool) (t : Text) : Text :=
  (t.reverse.dropWhile p).reverse

def dropEndsWhile (p : Char → Bool) (t : Text) : Text :=
  dropEndWhile p (t.dropWhile p)

def endsWith (c : Char) (t : Text) : Bool :=
  t.getLast? == some c

/-- Every tab becomes `width` spaces, wherever it stands in its line. -/
def expandTabs (width : Nat) (t : Text) : Text :=
  t.flatMap fun c ↦ if c = '\t' then List.replicate width ' ' else [c]

@[simp] theorem expandTabs_nil (width : Nat) : expandTabs width [] = [] := rfl

@[simp] theorem expandTabs_append (width : Nat) (s t : Text) :
    expandTabs width (s ++ t) = expandTabs width s ++ expandTabs width t := by
  simp [expandTabs]

/-- The text from byte offset `offset` on; none if the offset lies outside the text or inside a
character. -/
def fromByte? : Text → Nat → Option Text
  | t, 0 => some t
  | [], _ + 1 => none
  | c :: t, n + 1 => if c.utf8Size ≤ n + 1 then fromByte? t (n + 1 - c.utf8Size) else none

theorem fromByte?_append (s t : Text) : fromByte? (s ++ t) (byteLength s) = some t := by
  induction s with
  | nil => cases t <;> simp [fromByte?]
  | cons c s ih =>
    have hc := c.utf8Size_pos
    obtain ⟨n, hn⟩ : ∃ n, c.utf8Size + byteLength s = n + 1 := ⟨_, (Nat.succ_pred (by omega)).symm⟩
    have hs : n + 1 - c.utf8Size = byteLength s := by omega
    simp [fromByte?, hn, hs, ih, show c.utf8Size ≤ n + 1 by omega]

def cutWord : (word : Text) → Text → Option (Text × Text)
  | [], t => some ([], t)
  | _ :: _, [] => none
  | w :: word, c :: t =>
    if c.toLower = w then (cutWord word t).map fun (u, rest) ↦ (c :: u, rest) else none

theorem cutWord_eq_some_iff {word t u rest : Text} :
    cutWord word t = some (u, rest) ↔ t = u ++ rest ∧ u.map Char.toLower = word := by
  induction word generalizing t u with
  | nil =>
    rw [cutWord, Option.some.injEq, Prod.mk.injEq, List.map_eq_nil_iff]
    constructor
    · rintro ⟨rfl, rfl⟩
      exact ⟨rfl, rfl⟩
    · rintro ⟨rfl, rfl⟩
      exact ⟨rfl, rfl⟩
  | cons w word ih =>
    rcases t with _ | ⟨c, t⟩
    · rw [cutWord]
      constructor
      · intro h
        cases h
      · rintro ⟨hnil, hword⟩
        rw [(List.append_eq_nil_iff.mp hnil.symm).1] at hword
        cases hword
    · rw [cutWord]
      constructor
      · intro h
        split at h
        · next hc =>
          obtain ⟨⟨v, rest⟩, hv, heq⟩ := Option.map_eq_some_iff.mp h
          obtain ⟨rfl, rfl⟩ := Prod.mk.inj heq
          obtain ⟨rfl, rfl⟩ := ih.mp hv
          exact ⟨rfl, by rw [List.map_cons, hc]⟩
        · cases h
      · rintro ⟨ht, hword⟩
        rcases u with _ | ⟨d, u⟩
        · cases hword
        · rw [List.cons_append] at ht
          obtain ⟨rfl, rfl⟩ := List.cons.inj ht
          obtain ⟨rfl, rfl⟩ := List.cons.inj hword
          rw [if_pos rfl, ih.mpr ⟨rfl, rfl⟩]
          rfl

def ofNat (n : Nat) : Text :=
  Nat.toDigits 10 n

def ofInt : Int → Text
  | .ofNat n => ofNat n
  | .negSucc n => '-' :: ofNat (n + 1)

def ofBool (b : Bool) : Text :=
  if b then "true".toList else "false".toList

def inRanges (ranges : List (Nat × Nat)) (c : Char) : Bool :=
  ranges.any fun (low, high) ↦ low ≤ c.toNat && c.toNat ≤ high

end Text

end FreeForm
