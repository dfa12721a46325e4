import Playback.Catalog
import Playback.Screen.Recognition
import Playback.Screen.Tolerance
import Playback.Text.Search
import Playback.Yaml.Reader
/-!
# Configuration

The settings of the engines: standard values, a YAML document that replaces some of them, then
overrides from the environment.
-/

namespace Playback

/-- The settings of all engines. Spans of time are in milliseconds. -/
structure Config where
  mappingRoot : String
  /-- The launcher of an application; `\x7bapp\x7d` in it stands for the application's name. -/
  launcherTemplate : String
  launchGrace : Nat
  openTimeout : Nat
  closeTimeout : Nat
  windowPollInterval : Nat
  webhookUrl : Option String
  apps : Dict Nat
  colorTolerance : ColorTolerance
  colorAttempts : Nat
  colorInterval : Nat
  clickConditionAttempts : Nat
  ocrAttempts : Nat
  ocrRetryDelay : Nat
  ocrMode : RecognitionMode
  captureDir : Option String
  clearPresses : Nat
  clearInterval : Nat
  writePause : Nat
  pointerTravel : Nat
  dragTravel : Nat
  dragSettle : Nat
  stepPause : Nat
  maxRetries : Nat
  maxScrollPasses : Nat
  lockAcquireTimeout : Nat
  lockRetryInterval : Nat
  lockLease : Nat
  catalog : Catalog
  deriving DecidableEq, Repr, Inhabited

namespace Config

def standard : Config where
  mappingRoot := "Mapeamentos"
  launcherTemplate := "\x7bapp\x7d.lnk"
  launchGrace := 4000
  openTimeout := 30000
  closeTimeout := 5000
  windowPollInterval := 250
  webhookUrl := none
  apps := .ofList [("pppoker", 1), ("supremapoker", 2), ("pokerbros", 3)]
  colorTolerance := .standard
  colorAttempts := 20
  colorInterval := 300
  clickConditionAttempts := 1
  ocrAttempts := 2
  ocrRetryDelay := 300
  ocrMode := .singleBlock
  captureDir := none
  clearPresses := 20
  clearInterval := 50
  writePause := 200
  pointerTravel := 300
  dragTravel := 750
  dragSettle := 300
  stepPause := 100
  maxRetries := 3
  maxScrollPasses := 25
  lockAcquireTimeout := 30000
  lockRetryInterval := 500
  lockLease := 60000
  catalog := .standard

def fieldNames : List String :=
  ["mapping_root", "launcher_template", "launch_grace_ms", "open_timeout_ms", "close_timeout_ms",
    "window_poll_interval_ms", "webhook_url", "apps", "color_tolerance", "color_attempts",
    "color_interval_ms", "click_condition_attempts", "ocr_attempts", "ocr_retry_delay_ms",
    "ocr_mode", "capture_dir", "clear_presses", "clear_interval_ms", "write_pause_ms",
    "pointer_travel_ms", "drag_travel_ms", "drag_settle_ms", "step_pause_ms", "max_retries",
    "max_scroll_passes", "lock_acquire_timeout_ms", "lock_retry_interval_ms", "lock_lease_ms",
    "catalog"]

/-- Reads settings; a field that is not given keeps its value in `base`. -/
def ofDocument? (base : Config) (v : Document) : Option Config := do
  let fields := fieldNames.zip (← v.fields? fieldNames)
  let field {α : Type} (name : String) (read : Document → Option α) (default : α) : Option α :=
    Document.field? read default ((fields.lookup name).getD none)
  let small := Document.natUpTo? (UInt32.size - 1)
  let large := Document.natUpTo? (UInt64.size - 1)
  let text := Document.optional? Document.text?
  return {
    mappingRoot := ← field "mapping_root" Document.text? base.mappingRoot
    launcherTemplate := ← field "launcher_template" Document.text? base.launcherTemplate
    launchGrace := ← field "launch_grace_ms" large base.launchGrace
    openTimeout := ← field "open_timeout_ms" large base.openTimeout
    closeTimeout := ← field "close_timeout_ms" large base.closeTimeout
    windowPollInterval := ← field "window_poll_interval_ms" large base.windowPollInterval
    webhookUrl := ← field "webhook_url" text base.webhookUrl
    apps := ← field "apps" (Document.dict? small) base.apps
    colorTolerance := ← field "color_tolerance" ColorTolerance.ofDocument? base.colorTolerance
    colorAttempts := ← field "color_attempts" small base.colorAttempts
    colorInterval := ← field "color_interval_ms" large base.colorInterval
    clickConditionAttempts := ← field "click_condition_attempts" small base.clickConditionAttempts
    ocrAttempts := ← field "ocr_attempts" small base.ocrAttempts
    ocrRetryDelay := ← field "ocr_retry_delay_ms" large base.ocrRetryDelay
    ocrMode := ← field "ocr_mode" (Document.choice? RecognitionMode.all) base.ocrMode
    captureDir := ← field "capture_dir" text base.captureDir
    clearPresses := ← field "clear_presses" small base.clearPresses
    clearInterval := ← field "clear_interval_ms" large base.clearInterval
    writePause := ← field "write_pause_ms" large base.writePause
    pointerTravel := ← field "pointer_travel_ms" large base.pointerTravel
    dragTravel := ← field "drag_travel_ms" large base.dragTravel
    dragSettle := ← field "drag_settle_ms" large base.dragSettle
    stepPause := ← field "step_pause_ms" large base.stepPause
    maxRetries := ← field "max_retries" small base.maxRetries
    maxScrollPasses := ← field "max_scroll_passes" small base.maxScrollPasses
    lockAcquireTimeout := ← field "lock_acquire_timeout_ms" large base.lockAcquireTimeout
    lockRetryInterval := ← field "lock_retry_interval_ms" large base.lockRetryInterval
    lockLease := ← field "lock_lease_ms" large base.lockLease
    catalog := ← field "catalog" Catalog.ofDocument? base.catalog }

def ofYaml (s : String) : Except Fault Config :=
  if Text.blank s then .ok standard
  else
    match (Yaml.read? s).bind (ofDocument? standard) with
    | some c => .ok c
    | none => .error .yaml

def toJson (c : Config) : Json :=
  .record [("mapping_root", .str c.mappingRoot), ("launcher_template", .str c.launcherTemplate),
    ("launch_grace_ms", .nat c.launchGrace), ("open_timeout_ms", .nat c.openTimeout),
    ("close_timeout_ms", .nat c.closeTimeout),
    ("window_poll_interval_ms", .nat c.windowPollInterval),
    ("webhook_url", .ofString? c.webhookUrl), ("apps", .ofDict (c.apps.map fun n => .nat n)),
    ("color_tolerance", c.colorTolerance.toJson), ("color_attempts", .nat c.colorAttempts),
    ("color_interval_ms", .nat c.colorInterval),
    ("click_condition_attempts", .nat c.clickConditionAttempts),
    ("ocr_attempts", .nat c.ocrAttempts), ("ocr_retry_delay_ms", .nat c.ocrRetryDelay),
    ("ocr_mode", .str c.ocrMode.name), ("capture_dir", .ofString? c.captureDir),
    ("clear_presses", .nat c.clearPresses), ("clear_interval_ms", .nat c.clearInterval),
    ("write_pause_ms", .nat c.writePause), ("pointer_travel_ms", .nat c.pointerTravel),
    ("drag_travel_ms", .nat c.dragTravel), ("drag_settle_ms", .nat c.dragSettle),
    ("step_pause_ms", .nat c.stepPause), ("max_retries", .nat c.maxRetries),
    ("max_scroll_passes", .nat c.maxScrollPasses),
    ("lock_acquire_timeout_ms", .nat c.lockAcquireTimeout),
    ("lock_retry_interval_ms", .nat c.lockRetryInterval), ("lock_lease_ms", .nat c.lockLease),
    ("catalog", c.catalog.toJson)]

def variablePrefix : String := "CROUPIER_"

def setting? (env : Dict String) (name : String) : Option String :=
  (env.get? name).filter fun v => !Text.blank v

def readNatural? (max : Nat) (s : String) : Option Nat :=
  let digits := match s.toList with
    | '+' :: rest => rest
    | cs => cs
  if digits.isEmpty || !digits.all Char.isDigit then none
  else
    let n := Json.Reader.digitsValue digits
    if n ≤ max then some n else none

/-- The number settings that the environment may override, in the order they are looked up: the
variable, the greatest value and the setting it replaces. -/
def numberOverrides : List (String × Nat × (Config → Nat → Config)) :=
  let small := UInt32.size - 1
  let large := UInt64.size - 1
  [("MAX_RETRIES", small, fun c n => { c with maxRetries := n }),
    ("MAX_SCROLL_PASSES", small, fun c n => { c with maxScrollPasses := n }),
    ("COLOR_ATTEMPTS", small, fun c n => { c with colorAttempts := n }),
    ("OCR_ATTEMPTS", small, fun c n => { c with ocrAttempts := n }),
    ("LAUNCH_GRACE_MS", large, fun c n => { c with launchGrace := n }),
    ("OPEN_TIMEOUT_MS", large, fun c n => { c with openTimeout := n }),
    ("CLOSE_TIMEOUT_MS", large, fun c n => { c with closeTimeout := n }),
    ("LOCK_ACQUIRE_TIMEOUT_MS", large, fun c n => { c with lockAcquireTimeout := n })]

def variableNames : List String :=
  "WEBHOOK_URL" :: (["WEBHOOK_URL", "MAPPING_ROOT", "LAUNCHER_TEMPLATE", "CAPTURE_DIR"]
    ++ numberOverrides.map (·.1)).map (variablePrefix ++ ·)

/-- Number overrides one after the other; a bad one ends them, and the earlier ones stay. -/
def applyNumbers (env : Dict String) (c : Config) :
    List (String × Nat × (Config → Nat → Config)) → Except Fault Unit × Config
  | [] => (.ok (), c)
  | (name, max, put) :: rest =>
    let name := variablePrefix ++ name
    match setting? env name with
    | none => applyNumbers env c rest
    | some raw =>
      match readNatural? max (Text.trim raw) with
      | some n => applyNumbers env (put c n) rest
      | none =>
        (.error (.invalidConfig (name ++ " is not a valid number: '" ++ raw ++ "'")), c)

/-- Overrides from the environment: the outcome, and the settings as far as they were replaced. An
older variable for the webhook counts where the present one is not set. -/
def applyEnv (c : Config) (env : Dict String) : Except Fault Unit × Config :=
  let own (name : String) : Option String := setting? env (variablePrefix ++ name)
  let url := (own "WEBHOOK_URL").orElse fun _ => setting? env "WEBHOOK_URL"
  let c := { c with
    webhookUrl := (url.map Text.trim).orElse fun _ => c.webhookUrl
    mappingRoot := (own "MAPPING_ROOT").getD c.mappingRoot
    launcherTemplate := (own "LAUNCHER_TEMPLATE").getD c.launcherTemplate
    captureDir := (own "CAPTURE_DIR").orElse fun _ => c.captureDir }
  applyNumbers env c numberOverrides

def validate (c : Config) : Except Fault Unit := do
  if c.apps.entries.isEmpty then .error (.invalidConfig "no apps configured")
  if c.maxRetries = 0 then .error (.invalidConfig "max_retries must be at least 1")
  c.catalog.validate

def launcherFor (c : Config) (app : String) : String :=
  Text.replaceAll "\x7bapp\x7d" (Text.trim app) c.launcherTemplate

def botId? (c : Config) (app : String) : Option Nat :=
  (c.apps.entries.find? fun e => Text.sameName e.1 (Text.trim app)).map (·.2)

/-- The same settings with every wait at zero and polling at its fastest; the timeouts stay. -/
def withoutDelays (c : Config) : Config :=
  { c with
    launchGrace := 0
    windowPollInterval := 1
    colorInterval := 0
    ocrRetryDelay := 0
    clearInterval := 0
    writePause := 0
    pointerTravel := 0
    dragTravel := 0
    dragSettle := 0
    stepPause := 0
    lockRetryInterval := 1 }

end Config

end Playback
