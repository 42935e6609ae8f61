import FreeForm.Toml.Item

namespace FreeForm

namespace Toml

open Text

/-- The line that the place at `offset` bytes stands in, starting with the first of its characters
that are still ahead: line number, column, and the whole line. `line` holds what is already behind of
the line, in reverse. -/
def locate (number : Nat) (line : Text) : (offset : Nat) → Text → Nat × Nat × Text
  | 0, t => (number, line.length + 1, line.reverse ++ t.takeWhile (· ≠ '\n'))
  | _ + 1, [] => (number, line.length + 1, line.reverse)
  | n + 1, c :: t =>
    if c = '\n' then locate (number + 1) [] (n + 1 - c.utf8Size) t
    else locate number (c :: line) (n + 1 - c.utf8Size) t

/-- The message `message` about a stretch of the document `t`. The stretch is underlined up to the end
of its first line, with a mark for each byte. -/
def diagnose (t : Text) (extent : Extent) (message : Text) : Text :=
  let total := byteLength t
  let start := total - extent.start
  let stop := total - extent.stop
  let (number, column, content) := locate 1 [] start t
  let gutter := List.replicate ((ofNat number).length + 1) ' '
  let width := min (stop - start) (byteLength content - (column - 1))
  "TOML parse error at line ".toList ++ ofNat number ++ ", column ".toList ++
    ofNat column ++ ['\n'] ++
    gutter ++ ['|', '\n'] ++
    ofNat number ++ " | ".toList ++ content ++ ['\n'] ++
    gutter ++ ['|'] ++ List.replicate column ' ' ++ List.replicate (max 1 width) '^' ++ ['\n'] ++
    message ++ ['\n']

end Toml

end FreeForm
