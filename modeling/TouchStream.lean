import TouchStream.Chain
import TouchStream.ConfigFile
import TouchStream.Data.Datum
import TouchStream.Data.Records
import TouchStream.Decision
import TouchStream.Display
import TouchStream.Event
import TouchStream.Geometry
import TouchStream.Gesture
import TouchStream.Json.Basic
import TouchStream.Json.Data
import TouchStream.Json.Printer
import TouchStream.Json.Reader
import TouchStream.Json.Records
import TouchStream.Main
import TouchStream.Number.Binary
import TouchStream.Number.Decimal
import TouchStream.Number.Shortest
import TouchStream.Number.Single
import TouchStream.Number.Stepwise
import TouchStream.Pipeline
import TouchStream.Proofs.Chain
import TouchStream.Proofs.Chain.Time
import TouchStream.Proofs.ConfigFile
import TouchStream.Proofs.Data
import TouchStream.Proofs.Json.Records
import TouchStream.Proofs.Json.Single
import TouchStream.Proofs.Json.Text
import TouchStream.Proofs.Number.Numeral
import TouchStream.Proofs.Number.Residues
import TouchStream.Proofs.Number.Rounding
import TouchStream.Proofs.Number.Shortest
import TouchStream.Proofs.Number.Single
import TouchStream.Proofs.Number.SingleGrid
import TouchStream.Proofs.Number.Stepwise
import TouchStream.Proofs.Number.Value
import TouchStream.Proofs.Pipeline.Aborted
import TouchStream.Proofs.Pipeline.Begun
import TouchStream.Proofs.Pipeline.CatchUp
import TouchStream.Proofs.Pipeline.History
import TouchStream.Proofs.Pipeline.LazyTimers
import TouchStream.Proofs.Pipeline.Messages
import TouchStream.Proofs.Pipeline.Order
import TouchStream.Proofs.Pipeline.OtherInput
import TouchStream.Proofs.Pipeline.Postponed
import TouchStream.Proofs.Pipeline.Run
import TouchStream.Proofs.Postponed
import TouchStream.Proofs.Recognizer.Alike
import TouchStream.Proofs.Recognizer.Closing
import TouchStream.Proofs.Recognizer.Consistent
import TouchStream.Proofs.Recognizer.Interactions
import TouchStream.Proofs.Recognizer.Isolation
import TouchStream.Proofs.Recognizer.Latches
import TouchStream.Proofs.Recognizer.Muted
import TouchStream.Proofs.Recognizer.Postponed
import TouchStream.Proofs.Recognizer.Run
import TouchStream.Proofs.Recognizer.Timing
import TouchStream.Proofs.Recognizer.Traced
import TouchStream.Proofs.Replay
import TouchStream.Proofs.Timers
import TouchStream.Proofs.Toml.Document
import TouchStream.Proofs.Toml.Number
import TouchStream.Proofs.Toml.Scalar
import TouchStream.Proofs.TouchFilter.Downs
import TouchStream.Proofs.TouchFilter.Postponed
import TouchStream.Proofs.TouchFilter.Sample
import TouchStream.Proofs.TouchFilter.Touch
import TouchStream.Proofs.Worker
import TouchStream.Proofs.Worker.Commands
import TouchStream.Recognizer
import TouchStream.Replay
import TouchStream.Route
import TouchStream.Sample
import TouchStream.ScriptedPath
import TouchStream.Settings
import TouchStream.Signal
import TouchStream.Time
import TouchStream.Timers
import TouchStream.Toml.Printer
import TouchStream.Toml.Reader
import TouchStream.Toml.Records
import TouchStream.Toml.Scalar
import TouchStream.Toml.Table
import TouchStream.Toml.Text
import TouchStream.TouchFilter
import TouchStream.Worker
import TouchStream.Proofs.Recognizer.SecondTap
import TouchStream.Proofs.Recognizer.Phases
import TouchStream.Proofs.Chain.Downs
import TouchStream.Proofs.Pipeline.StillTouches
import TouchStream.Proofs.Recognizer.Justified
import TouchStream.Proofs.TouchFilter.Dropped
import TouchStream.Proofs.TouchFilter.Origins
import TouchStream.Proofs.Pipeline.ScriptedSwipe
import TouchStream.Proofs.Chain.PassThrough
import TouchStream.Proofs.Recognizer.PassedOn
import TouchStream.Proofs.Pipeline.Destroyed
import TouchStream.Proofs.Recognizer.Expiry
import TouchStream.Proofs.Pipeline.Deadlines
import TouchStream.Proofs.Route
import TouchStream.Proofs.ScriptedPath
import TouchStream.Proofs.Timers.LatestArming
