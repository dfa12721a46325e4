import Playback.CommandLine.Execution
import Playback.Rehearsal
/-!
# Without a desktop

The machine as the program finds it where no pointer, keyboard or screen can be reached: recordings
can be checked, but no application can be driven.
-/

namespace Playback.CommandLine

/-- No application can be driven, so that the desk is never used. -/
def withoutDesktop : Platform Rehearsal where
  drivable app := .error (.platform
    ("cannot drive " ++ app ++ ": built without the \x60desktop\x60 feature"))
  desk _ _ _ := .blank
  aborts := false

end Playback.CommandLine
