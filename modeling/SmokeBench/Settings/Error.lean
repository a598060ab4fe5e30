import SmokeBench.IoError
import SmokeBench.Path

/-!
What can be wrong with the settings of the bench. A document that does not fit the settings comes
with the reason, one that is no document at all with none.
-/

namespace SmokeBench

inductive SettingsError
  | unreadable (path : Path) (cause : IoError)
  | runnerUnknown (cause : IoError)
  | notADocument
  | misfit (reason : String)
  | invalid (reason : String)
  | environment (reason : String)
  deriving DecidableEq, Repr

def SettingsError.message : SettingsError → String
  | unreadable path cause => s!"config io error: {path.display}: {cause.message}"
  | runnerUnknown cause => s!"config io error: cannot locate runner executable: {cause.message}"
  | notADocument => "config parse error: not a document"
  | misfit reason => s!"config parse error: {reason}"
  | invalid reason => s!"invalid config: {reason}"
  | environment reason => s!"invalid environment: {reason}"

end SmokeBench
