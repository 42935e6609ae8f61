import FreeForm.Command.Input
import FreeForm.Selection

namespace FreeForm

namespace Command

open Report (debugLines)

def patternsOf (o : Options) : List Glob :=
  o.exclude.filterMap fun p ↦ (Glob.parse p).toOption

def patternNotices (o : Options) : List Text :=
  o.exclude.filterMap fun p ↦
    match Glob.parse p with
    | .ok _ => none
    | .error e =>
      some ("Warning: ignoring exclude pattern '".toList ++ p ++ "': ".toList ++ e.report)

def selectionOf (o : Options) : Selection :=
  ⟨patternsOf o, o.extensions, o.recursive⟩

variable {m : Type → Type} [Monad m]

/-- The files that one input stands for, or what is said if there are none at all. -/
def filesAt (files : Files m) (o : Options) (input : Text) : m (List Text × List Text) := do
  match ← (selectionOf o).filesAt? files input with
  | some found => return ([], found)
  | none =>
    return (audible o ["Skipping ".toList ++ input ++ ": no such file or directory".toList], [])

def filesFor (files : Files m) (o : Options) : m (List Text × List Text) := do
  let found ← o.inputs.mapM (filesAt files o)
  let paths := found.flatMap (·.2)
  return (patternNotices o ++ found.flatMap (·.1) ++
    debugLines o [Text.ofNat paths.length ++ " files to lex".toList], paths)

def fileReport (files : Files m) (o : Options) (s : Settings) (path : Text) :
    m (Except Failure Report) := do
  match ← files.status path with
  | .error e => return .error (.system e)
  | .ok status =>
    if sizeLimit < status.size then return .error (.largeFile status.size)
    else
      match ← textAt files path with
      | .error e => return .error e
      | .ok t => return (Report.ofText o s path t).mapError .reading

structure Result where
  path : Text
  report : Except Failure Report

namespace Result

def notices (o : Options) (r : Result) : List Text :=
  match r.report with
  | .error _ => []
  | .ok report =>
    report.notices ++ debugLines o [r.path ++ ": ".toList ++ Text.ofNat report.physicalLines ++
      " physical lines, ".toList ++ Text.ofNat report.logicalLines ++ " logical lines".toList]

def complaint? (r : Result) : Option Text :=
  match r.report with
  | .error e => some ("Error lexing ".toList ++ r.path ++ ": ".toList ++ e.report)
  | .ok _ => none

end Result

def summary (o : Options) (reports : List Report) (failed : Nat) : Text :=
  let verb := if o.check then "Checked " else "Lexed "
  let counted := verb.toList ++ Text.ofNat reports.length ++ " files".toList
  if failed = 0 then
    counted ++ " successfully".toList ++
      lineCounts (reports.foldl (fun n r ↦ n + r.physicalLines) 0)
        (reports.foldl (fun n r ↦ n + r.logicalLines) 0)
  else counted ++ ", ".toList ++ Text.ofNat failed ++ " errors.".toList

def concludeFiles (o : Options) (notices : List Text) (results : List Result) : Outcome :=
  let reports := results.filterMap (·.report.toOption)
  let complaints := results.filterMap Result.complaint?
  finish (reports.flatMap (·.records))
    (notices ++ results.flatMap (·.notices o) ++ complaints ++
      audible o [summary o reports complaints.length])
    (if complaints.isEmpty then none else some (.files complaints.length results.length))

def lexFiles (files : Files m) (o : Options) (s : Settings) (notices : List Text) : m Outcome := do
  let (said, paths) ← filesFor files o
  let notices := notices ++ said
  if paths.isEmpty then
    return finish [] (notices ++ audible o ["No Fortran files found to lex.".toList]) none
  else
    let results ← paths.mapM fun path ↦ return Result.mk path (← fileReport files o s path)
    return concludeFiles o notices results

end Command

end FreeForm
