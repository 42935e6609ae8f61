import FreeForm.LexError
import FreeForm.Settings.Document
import FreeForm.Files

namespace FreeForm

structure Outcome where
  exitCode : Nat
  stdout : Text
  stderr : Text
  deriving DecidableEq, Repr

namespace Command

inductive Failure where
  | system (e : SystemError)
  | reading (e : ReadError)
  | document (t : Text) (e : Settings.DocumentError)
  | unfit (p : Settings.Problem)
  | largeFile (size : Nat)
  | largeInput (size : Nat)
  | files (failed all : Nat)

def megabyte : Nat :=
  1048576

/-- No more than this many bytes are lexed at once. -/
def sizeLimit : Nat :=
  100 * megabyte

def megabytes (size : Nat) : Text :=
  Text.ofNat (size / megabyte) ++ " MB".toList

def overLimit (size : Nat) : Text :=
  megabytes size ++ " exceeds limit of ".toList ++ megabytes sizeLimit

def Failure.report : Failure → Text
  | system e => e.report
  | reading e => e.report
  | document t e => e.report t
  | unfit p => "Invalid configuration: ".toList ++ p.report
  | largeFile size => overLimit size
  | largeInput size => "stdin input too large (".toList ++ overLimit size ++ [')']
  | files failed all =>
    Text.ofNat failed ++ " of ".toList ++ Text.ofNat all ++ " files failed".toList

def unlines (lines : List Text) : Text :=
  lines.flatMap (· ++ ['\n'])

def finish (records notices : List Text) : Option Failure → Outcome
  | none => ⟨0, unlines records, unlines notices⟩
  | some e => ⟨1, unlines records, unlines (notices ++ ["Error: ".toList ++ e.report])⟩

end Command

end FreeForm
