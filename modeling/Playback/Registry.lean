import Playback.Engine.Run
/-!
# The registry

One engine per configured application, all of them on one stage. A job goes to the engine of the
application it names, letter case and blanks around the name aside.
-/

namespace Playback

structure Registry where
  engines : Dict Engine
  deriving DecidableEq, Repr, Inhabited

namespace Registry

def key (app : String) : String := Text.toLower (Text.trim app)

def keys (c : Config) : List String := c.apps.keys.map key

/-- A new engine for every configured application; of two with one key the later one counts. The
first application that cannot be driven makes it fail. -/
def build (c : Config) (drivable : String → Except Fault Unit) : Except Fault Registry :=
  (keys c).foldlM (fun r app => do
    drivable app
    return ⟨r.engines.insert app .fresh⟩) ⟨.empty⟩

def apps (r : Registry) : List String := r.engines.keys

def engine? (r : Registry) (app : String) : Option Engine := r.engines.get? (key app)

/-- The key of the engine that a job goes to. -/
def route (r : Registry) (job : Job) : Except Fault String :=
  match job.app? with
  | none => .error (.invalidCommand "Comando has no App")
  | some app =>
    if (r.engine? app).isSome then .ok (key app)
    else .error (.invalidCommand ("no engine registered for app '" ++ app ++ "'"))

variable {σ : Type} [Desk σ]

def onEngine {α : Type} (app : String) (x : Action (Session σ) α) :
    Action (Registry × Stage σ) α := fun s =>
  let (r, t) := x ⟨(s.1.engines.get? app).getD .fresh, s.2⟩
  (r, (⟨s.1.engines.insert app t.engine⟩, t.stage))

def setup (e : Setup) (app : String) : Setup := { e with app }

def submit (e : Setup) (job : Job) : Action (Registry × Stage σ) Unit := do
  let app ← fun s => (s.1.route job, s)
  onEngine app ((setup e app).add job)

def run (e : Setup) (app : String) : Action (Registry × Stage σ) Unit :=
  onEngine app (setup e app).run

def dispatch (e : Setup) (job : Job) : Action (Registry × Stage σ) Unit := do
  let app ← fun s => (s.1.route job, s)
  onEngine app (do (setup e app).add job; (setup e app).run)

end Registry

end Playback
