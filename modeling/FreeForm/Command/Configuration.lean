import FreeForm.Command.Outcome
import FreeForm.Options.Help
import FreeForm.Report

namespace FreeForm

namespace Command

open Report (debugLines)

inductive Origin where
  | named (path : Text)
  | found
  | defaults
  deriving DecidableEq, Repr

def Origin.notice : Origin → Text
  | named path => "Using explicit config file: ".toList ++ path
  | found => "Using config file: ".toList ++ Options.configName
  | defaults => "No config file found, using defaults".toList

def settingsNotices (s : Settings) : List Text :=
  ["Configuration:".toList,
    "  tab_width: ".toList ++ Text.ofNat s.tabWidth,
    "  max_continuation_lines: ".toList ++ Text.ofNat s.maxContinuationLines,
    "  strict: ".toList ++ Text.ofBool s.strict]

def adjust (o : Options) (s : Settings) : Settings :=
  { s with tabWidth := o.tabWidth.getD s.tabWidth, strict := s.strict || o.strict }

def decode (bytes : List UInt8) : Except Failure Text :=
  match Text.decode? bytes with
  | some t => .ok t
  | none => .error (.reading .undecodable)

variable {m : Type → Type} [Monad m]

def textAt (files : Files m) (path : Text) : m (Except Failure Text) := do
  match ← files.content path with
  | .ok bytes => return decode bytes
  | .error e => return .error (.system e)

def settingsAt (files : Files m) (path : Text) : m (Except Failure Settings) := do
  match ← textAt files path with
  | .ok t => return (Settings.decode t).mapError (.document t)
  | .error e => return .error e

/-- A file that the command line names goes before one with the usual name. -/
def originOf (files : Files m) (o : Options) : m Origin := do
  match o.config with
  | some path => return .named path
  | none =>
    match ← files.status Options.configName with
    | .ok (.file _) => return .found
    | _ => return .defaults

def load (files : Files m) : Origin → m (Except Failure Settings)
  | .named path => settingsAt files path
  | .found => settingsAt files Options.configName
  | .defaults => return .ok {}

def settingsFor (files : Files m) (o : Options) : m (List Text × Except Failure Settings) := do
  let origin ← originOf files o
  let start := debugLines o [origin.notice]
  match ← load files origin with
  | .error e => return (start, .error e)
  | .ok s =>
    let s := adjust o s
    return (start ++ debugLines o (settingsNotices s),
      match s.problem? with
      | some p => .error (.unfit p)
      | none => .ok s)

end Command

end FreeForm
