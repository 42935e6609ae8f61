import FreeForm.Command.Configuration

namespace FreeForm

namespace Command

def lineCounts (physical logical : Nat) : Text :=
  " (".toList ++ Text.ofNat physical ++ " physical, ".toList ++ Text.ofNat logical ++
    " logical lines).".toList

def audible (o : Options) (lines : List Text) : List Text :=
  if o.silent then [] else lines

def readsInput (o : Options) : Bool :=
  o.inputs = [] || o.inputs = [['-']]

def inputName : Text :=
  "<stdin>".toList

def inputReport (o : Options) (s : Settings) (bytes : List UInt8) : Except Failure Report :=
  match decode bytes with
  | .error e => .error e
  | .ok t =>
    if sizeLimit < bytes.length then .error (.largeInput bytes.length)
    else (Report.ofText o s inputName t).mapError .reading

def lexInput (o : Options) (s : Settings) (notices : List Text) (bytes : List UInt8) : Outcome :=
  match inputReport o s bytes with
  | .error e => finish [] notices (some e)
  | .ok r =>
    finish r.records
      (notices ++ r.notices ++ audible o
        ["Lexed stdin successfully".toList ++ lineCounts r.physicalLines r.logicalLines])
      none

end Command

end FreeForm
