import FreeForm.PhysicalLine
import FreeForm.Segment

namespace FreeForm

structure Source where
  unread : List PhysicalLine
  linesRead : Nat
  queue : List Segment
  deriving Repr

namespace Source

def ofLines (lines : List PhysicalLine) : Source :=
  ⟨lines, 0, []⟩

inductive Supply where
  | segment (s : Segment) (r : Region) (source : Source)
  | exhausted
  /-- The next line is not UTF-8. It is passed over and not counted. -/
  | undecodable (source : Source)
  | empty (source : Source)
  deriving Repr

/-- The next segment: one that waits, or the first of the next physical line, which starts in region
`r`, or goes on with a directive. -/
def supply (source : Source) (tabWidth : Nat) (inDirective : Bool) (r : Region) : Supply :=
  match source.queue with
  | s :: queue => .segment s r { source with queue := queue }
  | [] =>
    match source.unread with
    | [] => .exhausted
    | .undecodable :: unread => .undecodable { source with unread := unread }
    | .text t :: unread =>
      let lineNumber := source.linesRead + 1
      match Segment.ofLine (Text.expandTabs tabWidth t) lineNumber inDirective r with
      | ([], _) => .empty ⟨unread, lineNumber, []⟩
      | (s :: queue, r') => .segment s r' ⟨unread, lineNumber, queue⟩

def Smaller (a b : Source) : Prop :=
  a.unread.length < b.unread.length ∨
    a.unread.length = b.unread.length ∧ a.queue.length < b.queue.length

theorem Smaller.trans {a b c : Source} (hab : Smaller a b) (hbc : Smaller b c) : Smaller a c := by
  unfold Smaller at *
  omega

variable {source source' : Source} {tabWidth : Nat} {inDirective : Bool} {r r' : Region}

theorem smaller_of_supply_segment {s : Segment}
    (h : source.supply tabWidth inDirective r = .segment s r' source') :
    source'.Smaller source := by
  unfold supply at h
  split at h
  · next hq =>
    cases h
    exact Or.inr ⟨rfl, by simp [hq]⟩
  · split at h
    · cases h
    · cases h
    · next hu =>
      dsimp only at h
      split at h
      · cases h
      · cases h
        exact Or.inl (by simp [hu])

theorem smaller_of_supply_undecodable
    (h : source.supply tabWidth inDirective r = .undecodable source') : source'.Smaller source := by
  unfold supply at h
  split at h
  · cases h
  · split at h
    · cases h
    · next hu =>
      cases h
      exact Or.inl (by simp [hu])
    · dsimp only at h
      split at h <;> cases h

theorem smaller_of_supply_empty
    (h : source.supply tabWidth inDirective r = .empty source') : source'.Smaller source := by
  unfold supply at h
  split at h
  · cases h
  · split at h
    · cases h
    · cases h
    · next hu =>
      dsimp only at h
      split at h
      · cases h
        exact Or.inl (by simp [hu])
      · cases h

end Source

end FreeForm
