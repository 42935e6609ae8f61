import FreeForm.Segment

namespace FreeForm

open Text

namespace Segment

def trimmed (s : Segment) : Text :=
  trim s.code

/-- The code without blanks and continuation marks around it. -/
def core (s : Segment) : Text :=
  dropEndsWhile (· = '&') s.trimmed

def remark (s : Segment) : Text :=
  dropEndWhile (· = '\n') s.comment

/-- The newline that a logical line ends with after the segment: none behind a comment. -/
def lineEnd (s : Segment) : Text :=
  if s.newline && s.comment.isEmpty then ['\n'] else []

end Segment

/-- What the next segment would go on with. -/
structure Continuation where
  statement : Bool
  directive : Bool
  deriving DecidableEq, Repr

namespace Continuation

def closed : Continuation :=
  ⟨false, false⟩

def isOpen (c : Continuation) : Bool :=
  c.statement || c.directive

/-- Blank code and the absence of a comment leave things as they are. -/
def after (c : Continuation) (s : Segment) : Continuation where
  statement := if s.trimmed.isEmpty then c.statement else endsWith '&' s.trimmed
  directive :=
    if s.comment.isEmpty then c.directive
    else (c.directive || Marker.startsDirective (Marker.window s.comment)) &&
      endsWith '&' (trim s.comment)

end Continuation

structure LogicalLine where
  joined : Text
  comments : List Text
  lines : List Text
  lineNumber : Nat
  deriving DecidableEq, Repr

namespace LogicalLine

/-- The joined code with one more segment. Blank code is replaced, and a sentinel is kept only in
front of the first code. -/
def join (joined : Text) (s : Segment) : Text :=
  (if isBlankText joined then Sentinel.markerOf s.sentinel else dropEndWhile (· = '\n') joined) ++
    s.core ++ s.lineEnd

def startOf (segments : List Segment) : Nat :=
  (segments.head?.map Segment.lineNumber).getD 0

def ofSegments (segments : List Segment) : LogicalLine where
  joined := segments.foldl join []
  comments := segments.map Segment.remark
  lines := segments.map Segment.source
  lineNumber := startOf segments

end LogicalLine

end FreeForm
