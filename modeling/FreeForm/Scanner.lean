import FreeForm.Region

namespace FreeForm

structure View where
  hidesComments : Bool
  hidesQuoted : Bool
  deriving DecidableEq, Repr

abbrev Placed := Nat × Char

/-- A scan of a line. The characters it shows are had one by one (`next?`) or all at once (`drain`). -/
structure Scanner where
  rest : Text
  offset : Nat
  region : Region
  closing : Bool
  view : View
  haltedAt : Option Nat
  deriving Repr

namespace Scanner

def resume (line : Text) (view : View) (r : Region) : Scanner :=
  ⟨line, 0, r.carried, false, view, none⟩

def ofLine (line : Text) (view : View) : Scanner :=
  resume line view .code

/-- The same scanner at the start of another line, with the literal or span it had open. -/
def restart (s : Scanner) (line : Text) (view : View) : Scanner :=
  resume line view s.region

def carried (s : Scanner) : Region :=
  s.region.carried

inductive Verdict where
  | shown
  | hidden
  | halted
  deriving DecidableEq, Repr

def read (s : Scanner) (c : Char) (rest : Text) : Verdict × Scanner :=
  let step := s.region.step s.closing c rest
  let next : Scanner :=
    { s with
      rest := rest
      offset := s.offset + c.utf8Size
      region := step.region
      closing := step.closing }
  if s.view.hidesComments && step.region = .comment then
    (.halted, { next with haltedAt := some s.offset })
  else if s.view.hidesQuoted && step.quoted then (.hidden, next)
  else (.shown, next)

/-- The first shown character of `line`, which is all that is left, and the scanner after it. -/
def nextIn (s : Scanner) : Text → Option Placed × Scanner
  | [] => (none, s)
  | c :: rest =>
    match s.read c rest with
    | (.shown, s') => (some (s.offset, c), s')
    | (.hidden, s') => s'.nextIn rest
    | (.halted, s') => (none, s')

/-- The next shown character; none at the end of the line and after a halt, for ever. -/
def next? (s : Scanner) : Option Placed × Scanner :=
  if s.haltedAt.isSome then (none, s) else s.nextIn s.rest

def drainIn (s : Scanner) : Text → List Placed × Scanner
  | [] => ([], s)
  | c :: rest =>
    match s.read c rest with
    | (.shown, s') =>
      let (shown, last) := s'.drainIn rest
      ((s.offset, c) :: shown, last)
    | (.hidden, s') => s'.drainIn rest
    | (.halted, s') => ([], s')

def drain (s : Scanner) : List Placed × Scanner :=
  if s.haltedAt.isSome then ([], s) else s.drainIn s.rest

def take : Nat → Scanner → List Placed × Scanner
  | 0, s => ([], s)
  | n + 1, s =>
    match s.next? with
    | (none, s') => ([], s')
    | (some item, s') =>
      let (items, last) := take n s'
      (item :: items, last)

def remainder (s : Scanner) : Text × Scanner :=
  let (items, last) := s.drain
  (items.map Prod.snd, last)

end Scanner

end FreeForm
