import FreeForm.Command

namespace FreeForm

/-- Some actions of the runtime give the code of an error with a minus sign. -/
def SystemError.ofError : IO.Error → SystemError
  | .alreadyExists _ code details | .otherError code details | .resourceBusy code details
  | .resourceVanished code details | .unsupportedOperation code details
  | .hardwareFault code details | .unsatisfiedConstraints code details
  | .illegalOperation code details | .protocolError code details | .timeExpired code details
  | .interrupted _ code details | .noFileOrDirectory _ code details
  | .invalidArgument _ code details | .permissionDenied _ code details
  | .resourceExhausted _ code details | .inappropriateType _ code details
  | .noSuchThing _ code details => ⟨details.toList, code.toInt32.toInt.natAbs⟩
  | .unexpectedEof => ⟨"unexpected end of file".toList, 0⟩
  | .userError details => ⟨details.toList, 0⟩

namespace Disk

def attempt {α : Type} (action : IO α) : IO (Except SystemError α) := do
  match ← action.toBaseIO with
  | .ok a => return .ok a
  | .error e => return .error (SystemError.ofError e)

def status (path : Text) : IO (Except SystemError Files.Status) :=
  attempt do
    let data ← (← IO.FS.realPath (String.ofList path)).metadata
    return match data.type with
      | .file => .file data.byteSize.toNat
      | .dir => .directory
      | .symlink | .other => .other

def identity (path : Text) : IO (Option Text) := do
  match ← (IO.FS.realPath (String.ofList path)).toBaseIO with
  | .ok p => return some p.toString.toList
  | .error _ => return none

def entry (e : IO.FS.DirEntry) : IO Files.Entry := do
  let isLink ← match ← e.path.symlinkMetadata.toBaseIO with
    | .ok data => pure (data.type == .symlink)
    | .error _ => pure false
  return ⟨e.fileName.toList, isLink⟩

def entries (path : Text) : IO (List Files.Entry) := do
  let found : IO (Array IO.FS.DirEntry) := do (← IO.FS.realPath (String.ofList path)).readDir
  match ← found.toBaseIO with
  | .ok found => found.toList.mapM entry
  | .error _ => return []

def content (path : Text) : IO (Except SystemError (List UInt8)) :=
  attempt do return (← (← IO.FS.Handle.mk (String.ofList path) .read).readBinToEnd).toList

def files : Files IO where
  status := status
  identity := identity
  entries := entries
  content := content

partial def readAll (stream : IO.FS.Stream) (behind : ByteArray) : IO ByteArray := do
  let bytes ← stream.read 65536
  if bytes.isEmpty then return behind else readAll stream (behind ++ bytes)

def input : IO (List UInt8) := do
  return (← readAll (← IO.getStdin) .empty).toList

end Disk

/-- Runs the command line, or tells someone at a terminal who gave no inputs what to do. -/
def runCommandLine (tokens : List Text) : IO Outcome := do
  let noInputs := match Options.ofTokens tokens with
    | .ok o => o.inputs.isEmpty
    | .error _ => false
  if noInputs && (← (← IO.getStdin).isTty) then return ⟨0, Options.overview, []⟩
  else Command.runTokens Disk.files Disk.input Options.programName tokens

end FreeForm

def main (args : List String) : IO UInt32 := do
  let outcome ← FreeForm.runCommandLine (args.map String.toList)
  (← IO.getStdout).putStr (String.ofList outcome.stdout)
  (← IO.getStderr).putStr (String.ofList outcome.stderr)
  return outcome.exitCode.toUInt32
