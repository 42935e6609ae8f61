import FreeForm.Lexer
import FreeForm.Options
import FreeForm.Text.Quoted

namespace FreeForm

structure Report where
  records : List Text
  logicalLines : Nat
  physicalLines : Nat
  notices : List Text
  deriving DecidableEq, Repr

namespace Report

def place (filename : Text) (lineNumber : Nat) : Text :=
  filename ++ ':' :: Text.ofNat lineNumber ++ [':']

def lineRecord (filename : Text) (l : LogicalLine) : Text :=
  place filename l.lineNumber ++ ' ' :: Text.quote l.joined

/-- A record of each comment that is not empty, numbered as if each segment stood on a line of its
own. -/
def commentRecords (filename : Text) (l : LogicalLine) : List Text :=
  (l.comments.zipIdx l.lineNumber).filterMap fun (comment, n) ↦
    if comment.isEmpty then none
    else some (place filename n ++ List.replicate 3 ' ' ++ comment)

def recordsOf (o : Options) (filename : Text) (l : LogicalLine) : List Text :=
  if o.check then []
  else lineRecord filename l :: if o.comments then commentRecords filename l else []

/-- A logical line and whether the source ended before it was complete. -/
abbrev Finished := LogicalLine × Bool

/-- The logical lines of a run, unless one of its outcomes is an error. If `strict`, so is a line that
the end of the source left open. -/
def finished (strict : Bool) : List (Reading × Lexer) → Except ReadError (List Finished)
  | (.line line, l) :: outcomes =>
    if l.truncated && strict then .error (.located (.openAtEnd l.filename l.linesRead))
    else (finished strict outcomes).map ((line, l.truncated) :: ·)
  | (.failure e, _) :: _ => .error e
  | (.done, _) :: _ | [] => .ok []

def differenceLine : Text → Text → Nat
  | c :: s, d :: t =>
    if c = d then differenceLine s t + if c = '\n' then 1 else 0 else 1
  | _, _ => 1

def debugLines (o : Options) (lines : List Text) : List Text :=
  if o.debug then lines.map ("[DEBUG] ".toList ++ ·) else []

def openNotice (filename : Text) (l : LogicalLine) : Text :=
  place filename l.lineNumber ++ " continuation left open at end of file".toList

/-- What is wrong if the logical lines, put together, are not the text with its tabs expanded. -/
def mismatch? (s : Settings) (filename t : Text) (lines : List Finished) : Option LexError :=
  let source := lines.flatMap (·.1.lines.flatten)
  let expected := Text.expandTabs s.tabWidth t
  if source = expected then none
  else some (.notReproduced filename (differenceLine source expected))

def ofFinished (o : Options) (filename : Text) (lines : List Finished) (physicalLines : Nat) :
    Report where
  records := lines.flatMap (recordsOf o filename ·.1)
  logicalLines := lines.length
  physicalLines := physicalLines
  notices := debugLines o ((lines.filter (·.2)).map (openNotice filename ·.1))

def warn (r : Report) (e : LexError) : Report :=
  { r with notices := r.notices ++ ["Warning: ".toList ++ e.report] }

def linesRead (run : List (Reading × Lexer)) : Nat :=
  (run.getLast?.map (·.2.linesRead)).getD 0

def ofText (o : Options) (s : Settings) (filename t : Text) : Except ReadError Report :=
  let run := (Lexer.ofText t s filename).run
  match finished s.strict run with
  | .error e => .error e
  | .ok lines =>
    let report := ofFinished o filename lines (linesRead run)
    match mismatch? s filename t lines with
    | none => .ok report
    | some e => if o.check || s.strict then .error (.located e) else .ok (report.warn e)

end Report

end FreeForm
