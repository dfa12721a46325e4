import Playback.Text.Blank
import Playback.Text.Case
import Playback.Text.Search
import Playback.Dict
import Playback.Decimal.Shortest
import Playback.Json.Reader
import Playback.Json.Writer
import Playback.Fault
import Playback.Geometry
import Playback.Comparison
import Playback.Question
import Playback.Command.Codec
import Playback.Mapping
import Playback.Yaml.Reader
import Playback.Catalog
import Playback.Config
import Playback.Duration
import Playback.Secret
import Playback.Action
import Playback.Lock
import Playback.Screen.Image
import Playback.Overlay
import Playback.Desk
import Playback.Stage
import Playback.Screen.ColorWait
import Playback.Screen.TextReader
import Playback.Arbiter
import Playback.Scroll.Search
import Playback.Window.Fixed
import Playback.Rehearsal
import Playback.Engine.Expansion
import Playback.Engine.Agenda
import Playback.Engine.Launch
import Playback.Engine.Perform
import Playback.Engine.Run
import Playback.Registry
import Playback.CommandLine.Execution
import Playback.Webhook
import Playback.Main
import Playback.Proofs.Effects
import Playback.Proofs.Footprints
import Playback.Proofs.Launching
import Playback.Proofs.Performing
import Playback.Proofs.Moves
import Playback.Proofs.Career
import Playback.Proofs.Story
import Playback.Proofs.Queue
import Playback.Proofs.Accounts
import Playback.Proofs.Submission
import Playback.Proofs.Retries
import Playback.Proofs.Names
import Playback.Proofs.Expanding
import Playback.Proofs.Answers
import Playback.Proofs.ReadBack
import Playback.Proofs.Spelling
import Playback.Proofs.Reachability
import Playback.Proofs.Workload
import Playback.Proofs.Attempts
import Playback.Proofs.Walk
import Playback.Proofs.BaseSetup
import Playback.Proofs.Arrival
import Playback.Proofs.Twofold
import Playback.Proofs.Isolation
import Playback.Proofs.Exclusion
import Playback.Proofs.Doubles
import Playback.Proofs.JsonValues
import Playback.Proofs.Codec
import Playback.Proofs.Probing
import Playback.Proofs.Decimals
import Playback.Proofs.JsonText
import Playback.Proofs.Appending
import Playback.Proofs.Letters
import Playback.Proofs.Routing
import Playback.Proofs.Arranging
import Playback.Proofs.Foreground
import Playback.Proofs.Covering
import Playback.Proofs.Running
import Playback.Proofs.Pressing
import Playback.Proofs.Causes
import Playback.Proofs.Absorbing
import Playback.Proofs.Containment
import Playback.Proofs.Loading
import Playback.Proofs.Checking
import Playback.Proofs.Skipping
import Playback.Proofs.Envelope
import Playback.Proofs.Leases
import Playback.Proofs.Takeover
import Playback.Proofs.Amounts
import Playback.Proofs.Comparators
import Playback.Proofs.Grouping
import Playback.Proofs.CaseRuns
import Playback.Proofs.SmallLetters
import Playback.Proofs.Addressees
import Playback.Proofs.LettingGo
import Playback.Proofs.Calendar
import Playback.Proofs.TwoShapes
import Playback.Proofs.Additions
import Playback.Proofs.Delivering
import Playback.Proofs.Schemas
import Playback.Proofs.Ingestion
import Playback.Proofs.Fields
import Playback.Proofs.Gathering
import Playback.Proofs.Traces
import Playback.Proofs.Relaunching
import Playback.Proofs.Polling
import Playback.Proofs.Extraction
import Playback.Proofs.Sampling
import Playback.Proofs.PresentDay
import Playback.Proofs.Custody
import Playback.Proofs.CapitalLetters
import Playback.Proofs.Namespaces
import Playback.Proofs.Environments
import Playback.Proofs.Regions
