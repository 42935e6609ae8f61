import FreeForm.Text.Basic

namespace FreeForm

structure Settings where
  tabWidth : Nat := 8
  /-- A logical line has at most this many segments. -/
  maxContinuationLines : Nat := 10000
  strict : Bool := false
  deriving DecidableEq, Repr, Inhabited

namespace Settings

inductive Problem where
  | zeroTabWidth
  | wideTab (tabWidth : Nat)
  | zeroContinuationLines
  deriving DecidableEq, Repr

def tabWidthLimit : Nat := 16

def Problem.report : Problem → Text
  | zeroTabWidth => "tab_width must be at least 1".toList
  | wideTab tabWidth =>
    "tab_width ".toList ++ Text.ofNat tabWidth ++ " exceeds maximum of ".toList ++
      Text.ofNat tabWidthLimit
  | zeroContinuationLines => "max_continuation_lines must be at least 1".toList

def problem? (s : Settings) : Option Problem :=
  if s.tabWidth = 0 then some .zeroTabWidth
  else if tabWidthLimit < s.tabWidth then some (.wideTab s.tabWidth)
  else if s.maxContinuationLines = 0 then some .zeroContinuationLines
  else none

end Settings

end FreeForm
