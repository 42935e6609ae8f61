import FreeForm.Command.FileList
import FreeForm.Options.CommandLine

namespace FreeForm

namespace Command

variable {m : Type → Type} [Monad m]

def run (files : Files m) (input : m (List UInt8)) (o : Options) : m Outcome := do
  let (notices, settings) ← settingsFor files o
  match settings with
  | .error e => return finish [] notices (some e)
  | .ok s => if readsInput o then return lexInput o s notices (← input) else lexFiles files o s notices

def refuse (program : Text) : Options.Refusal → Outcome
  | .helpWanted => ⟨0, Options.helpText program, []⟩
  | .versionWanted => ⟨0, Options.versionText, []⟩
  | r => ⟨2, [], r.report⟩

def runTokens (files : Files m) (input : m (List UInt8)) (program : Text) (tokens : List Text) :
    m Outcome :=
  match Options.ofTokens tokens with
  | .ok o => run files input o
  | .error r => return refuse program r

end Command

end FreeForm
