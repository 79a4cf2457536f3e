import Graphrun.Lib.Outcome
import Graphrun.Lib.Table
import Graphrun.Lib.Sequence
import Graphrun.Model.Value
import Graphrun.Model.Definition
import Graphrun.Model.State
import Graphrun.Model.Eval
import Graphrun.Model.Evolve
import Graphrun.Model.Env
import Graphrun.Model.Scopes
import Graphrun.Model.Reports
import Graphrun.Model.Claims
import Graphrun.Model.Waits
import Graphrun.Model.Progress
import Graphrun.Model.History
import Graphrun.Model.Decide
import Graphrun.Model.Analyze
import Graphrun.Model.Commit
import Graphrun.Model.Publication
import Graphrun.Model.InPlace
import Graphrun.Engine.Effects
import Graphrun.Engine.Records
import Graphrun.Engine.Containers
import Graphrun.Engine.NodeMoves
import Graphrun.Engine.Moves
import Graphrun.Engine.Inversion
import Graphrun.Engine.Trace
import Graphrun.Engine.Refinement
import Graphrun.Engine.Contents
import Graphrun.Signals.Delivery
import Graphrun.Signals.Confinement
import Graphrun.Engine.Execution
import Graphrun.Lib.Climb
import Graphrun.Lib.Ordered
import Graphrun.Lib.Log
import Graphrun.Engine.Tree
import Graphrun.Engine.Placing
import Graphrun.Loops.Bodies
import Graphrun.Loops.Refinement
import Graphrun.Engine.TokenMoves
import Graphrun.Engine.Kinds
import Graphrun.Claims.Fencing
import Graphrun.Claims.Reporters
import Graphrun.Claims.Recovery
import Graphrun.Engine.Closing
import Graphrun.Signals.Reservations
import Graphrun.Claims.Isolation
import Graphrun.Compiler.Availability
import Graphrun.Compiler.Contexts
import Graphrun.Commands.Receipts
import Graphrun.Commands.Retries
import Graphrun.Commands.Retention
import Graphrun.Engine.Nesting
import Graphrun.Engine.Stability
import Graphrun.Claims.Successes
import Graphrun.Engine.NestingMoves
import Graphrun.Engine.Roots
import Graphrun.Engine.Soundness
import Graphrun.Runs.Siblings
import Graphrun.Sagas.Obligations
import Graphrun.Sagas.Settlement
import Graphrun.Signals.Admission
import Graphrun.Signals.Deadlines
import Graphrun.Sagas.Enclosure
import Graphrun.Runs.Success
import Graphrun.Runs.Immutability
import Graphrun.Model.LogStore
import Graphrun.Storage.Boundaries
import Graphrun.Storage.Credits
import Graphrun.Publications.Modes
import Graphrun.Publications.Catalogs
import Graphrun.Publications.Pins
import Graphrun.Publications.StartKeys
import Graphrun.Model.FormatUpgrade
import Graphrun.Storage.WriterFormat
import Graphrun.Model.Document
import Graphrun.Model.Compile
import Graphrun.Compiler.Rules
import Graphrun.Lib.Rounds
import Graphrun.Claims.Allocation
import Graphrun.Claims.Probes
import Graphrun.Claims.Budgets
import Graphrun.Sagas.Duties
import Graphrun.Sagas.Irreversible
import Graphrun.Loops.Counted
import Graphrun.Loops.Repetition
import Graphrun.Loops.Window
import Graphrun.Model.Schedule
import Graphrun.Claims.Readiness
