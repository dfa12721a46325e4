import Playback.Dict
import Playback.Fault
import Playback.Text.Blank
import Playback.Text.Case
import Playback.Text.Search
/-!
# Secrets

A secret named in a recording stands for a variable of the environment whose name begins with the
application's own lead, so that no recording reaches the secrets of another application.
-/

namespace Playback.Secret

/-- The application in capital letters without `POKER` at its end, then an underscore. -/
def lead (app : String) : String :=
  let upper := Text.toUpper (Text.trim app)
  String.ofList ((Text.beforeTail? "POKER".toList upper.toList).getD upper.toList) ++ "_"

/-- The variable that holds the secret; a name that has the lead already is kept. -/
def variableName (app name : String) : String :=
  let name := Text.trim name
  if (lead app).toList.isPrefixOf (Text.toUpper name).toList then name else lead app ++ name

def resolve (env : Dict String) (app name : String) : Except Fault String :=
  let variableName := variableName app name
  match env.get? variableName with
  | some value => if value.isEmpty then .error (.missingSecret variableName) else .ok value
  | none => .error (.missingSecret variableName)

end Playback.Secret
