import FreeForm.Options.CommandLine

namespace FreeForm

namespace Options

def programName : Text :=
  "fprettier-lex".toList

def programVersion : Text :=
  "0.1.0".toList

def configName : Text :=
  "fprettier-lex.toml".toList

def versionText : Text :=
  programName ++ ' ' :: programVersion ++ ['\n']

def Parameter.valueName : Parameter → Text
  | exclude => "PATTERN".toList
  | extension => "EXT".toList
  | jobs | tabWidth => "NUM".toList
  | config => "FILE".toList

namespace Switch

def purpose : Switch → Text
  | .flag .recursive => "Recursively lex directories".toList
  | .flag .strict => "Fail on continuations left open at end of file".toList
  | .flag .check => "Only check that the lexed lines reproduce the input".toList
  | .flag .comments => "Also print the comments of each logical line".toList
  | .flag .debug => "Enable debug output (shows config, files, line counts)".toList
  | .flag .silent => "Silent mode (no summary)".toList
  | .flag .help => "Print help".toList
  | .flag .version => "Print version".toList
  | .parameter .exclude =>
    "Exclude files/directories matching pattern (glob syntax, can be repeated)".toList
  | .parameter .extension =>
    "Additional Fortran file extension (can be repeated, e.g., -f f03 -f F03)".toList
  | .parameter .jobs => "Number of parallel jobs (0=auto, 1=sequential)".toList
  | .parameter .config =>
    "Path to configuration file [default: ./".toList ++ configName ++ " if present]".toList
  | .parameter .tabWidth => "Spaces substituted for each tab [default: 8]".toList

def usage (s : Switch) : Text :=
  (match s.letter? with
    | some c => ['-', c, ',', ' ']
    | none => List.replicate 4 ' ') ++
  '-' :: '-' :: s.name ++
  match s with
  | .flag _ => []
  | .parameter p => " <".toList ++ p.valueName ++ ['>']

end Switch

def columns (rows : List (Text × Text)) : Text :=
  let width := rows.foldl (fun w (left, _) ↦ max w left.length) 0
  rows.flatMap fun (left, right) ↦
    ' ' :: ' ' :: left ++ List.replicate (width - left.length + 2) ' ' ++ right ++ ['\n']

def Refusal.complaint : Refusal → Text
  | unknownSwitch => "there is no such switch".toList
  | noValue => "a value is missing".toList
  | badValue => "a value is not a number".toList
  | repeated => "a switch stands twice".toList
  | needlessValue => "a switch takes no value".toList
  | helpWanted | versionWanted => []

def Refusal.report (r : Refusal) : Text :=
  "error: ".toList ++ r.complaint ++ "\n\nFor more information, try '--help'.\n".toList

def helpText (program : Text) : Text :=
  "Split Fortran source into logical lines (continuations, semicolons, comments)\n\n".toList ++
  "Usage: ".toList ++ program ++ " [OPTIONS] [FILE]...\n\n".toList ++
  "Arguments:\n".toList ++
  columns [("[FILE]...".toList, "Files or directories to lex ('-' or none reads stdin)".toList)] ++
  "\nOptions:\n".toList ++
  columns (Switch.all.map fun s ↦ (s.usage, s.purpose))

/-- What is shown to someone who starts the program at a terminal without inputs. -/
def overview : Text :=
  programName ++ " v".toList ++ programVersion ++ " - Fortran logical line lexer\n\n".toList ++
  "Usage:\n".toList ++
  [" [OPTIONS] <FILE>...", " [OPTIONS] -r <DIRECTORY>",
    " [OPTIONS] -              # Read from stdin"].flatMap
    (fun line ↦ ' ' :: ' ' :: programName ++ line.toList ++ ['\n']) ++
  "\nExamples:\n".toList ++
  [" file.f90                 # Print logical lines",
    " --comments file.f90      # Include comments",
    " --check -r src/          # Verify lossless splitting"].flatMap
    (fun line ↦ ' ' :: ' ' :: programName ++ line.toList ++ ['\n']) ++
  "  cat file.f90 | ".toList ++ programName ++ "           # Pipe input\n\n".toList ++
  "Run with --help for all options.\n".toList

end Options

end FreeForm
