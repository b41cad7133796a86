import Breadboard.Banner
import Breadboard.Bench
import Breadboard.Circuit.Arena
import Breadboard.Circuit.Basic
import Breadboard.Circuit.Chip
import Breadboard.Circuit.Edit
import Breadboard.Circuit.Fold
import Breadboard.Circuit.Nesting
import Breadboard.Config
import Breadboard.Console.Command
import Breadboard.Console.Dialogue
import Breadboard.Console.Record
import Breadboard.Console.Session
import Breadboard.Console.Work
import Breadboard.Decimal.Notation
import Breadboard.Decimal.Reading
import Breadboard.Decimal.Shortest
import Breadboard.Engine.Scheduler
import Breadboard.Engine.Settle
import Breadboard.Engine.Step
import Breadboard.Form.Circuits
import Breadboard.Form.Parts
import Breadboard.Form.Record
import Breadboard.Form.Reports
import Breadboard.Form.Signals
import Breadboard.Frequency
import Breadboard.Json.Basic
import Breadboard.Json.Number
import Breadboard.Json.Reader
import Breadboard.Json.Text
import Breadboard.Json.Writer
import Breadboard.Main
import Breadboard.Net.Basic
import Breadboard.Net.Cache
import Breadboard.Net.DisjointSets
import Breadboard.Net.Report
import Breadboard.Part.Catalog
import Breadboard.Part.Oscillator
import Breadboard.Part.Segments
import Breadboard.Port.Decl
import Breadboard.Port.Map
import Breadboard.Proofs.Circuit.Bare
import Breadboard.Proofs.Circuit.Bindings
import Breadboard.Proofs.Circuit.Blueprint
import Breadboard.Proofs.Circuit.Editing
import Breadboard.Proofs.Circuit.Levels
import Breadboard.Proofs.Circuit.Nodes
import Breadboard.Proofs.Circuit.Outline
import Breadboard.Proofs.Circuit.Places
import Breadboard.Proofs.Circuit.Tuning
import Breadboard.Proofs.Console.Atomicity
import Breadboard.Proofs.Console.Confinement
import Breadboard.Proofs.Console.Dialogues
import Breadboard.Proofs.Engine.Allowance
import Breadboard.Proofs.Engine.Basis
import Breadboard.Proofs.Engine.Beginning
import Breadboard.Proofs.Engine.Binding
import Breadboard.Proofs.Engine.Bound
import Breadboard.Proofs.Engine.Clockwork
import Breadboard.Proofs.Engine.Coherence
import Breadboard.Proofs.Engine.Convergence
import Breadboard.Proofs.Engine.Copying
import Breadboard.Proofs.Engine.Currency
import Breadboard.Proofs.Engine.Deliveries
import Breadboard.Proofs.Engine.Demanding
import Breadboard.Proofs.Engine.Depth
import Breadboard.Proofs.Engine.Determination
import Breadboard.Proofs.Engine.Driving
import Breadboard.Proofs.Engine.Eager
import Breadboard.Proofs.Engine.Emission
import Breadboard.Proofs.Engine.Firing
import Breadboard.Proofs.Engine.Fixture
import Breadboard.Proofs.Engine.Forgetting
import Breadboard.Proofs.Engine.Holding
import Breadboard.Proofs.Engine.Influence
import Breadboard.Proofs.Engine.Inside
import Breadboard.Proofs.Engine.Invariant
import Breadboard.Proofs.Engine.Lasting
import Breadboard.Proofs.Engine.Mirroring
import Breadboard.Proofs.Engine.Plain
import Breadboard.Proofs.Engine.Reading
import Breadboard.Proofs.Engine.Redrawing
import Breadboard.Proofs.Engine.Repetition
import Breadboard.Proofs.Engine.Requests
import Breadboard.Proofs.Engine.Rest
import Breadboard.Proofs.Engine.Settlement
import Breadboard.Proofs.Engine.Signals
import Breadboard.Proofs.Engine.Splitting
import Breadboard.Proofs.Engine.Staging
import Breadboard.Proofs.Engine.Steadiness
import Breadboard.Proofs.Engine.Stillness
import Breadboard.Proofs.Engine.Timekeeping
import Breadboard.Proofs.Engine.Transparency
import Breadboard.Proofs.Engine.Upkeep
import Breadboard.Proofs.Engine.Wall
import Breadboard.Proofs.Form.Acceptance
import Breadboard.Proofs.Form.Circuits
import Breadboard.Proofs.Form.Parts
import Breadboard.Proofs.Form.Rereading
import Breadboard.Proofs.Form.RoundTrip
import Breadboard.Proofs.Json.Decimals
import Breadboard.Proofs.Json.Nesting
import Breadboard.Proofs.Json.Numerals
import Breadboard.Proofs.Json.Quotes
import Breadboard.Proofs.Json.Spelling
import Breadboard.Proofs.Json.Writing
import Breadboard.Proofs.List.FirstOccurrences
import Breadboard.Proofs.Net.Components
import Breadboard.Proofs.Net.Feeding
import Breadboard.Proofs.Net.Interleaving
import Breadboard.Proofs.Net.Partition
import Breadboard.Proofs.Net.Redrawing
import Breadboard.Proofs.Net.Resolution
import Breadboard.Proofs.Net.Roles
import Breadboard.Proofs.Net.Splitting
import Breadboard.Proofs.Net.Terminals
import Breadboard.Proofs.Part.Counting
import Breadboard.Proofs.Port.Writing
import Breadboard.Proofs.Run.Agreement
import Breadboard.Proofs.Run.Drives
import Breadboard.Proofs.Run.Recordings
import Breadboard.Proofs.Run.Sessions
import Breadboard.Proofs.Run.Ticking
import Breadboard.Proofs.Run.Touching
import Breadboard.Proofs.Safety.Changes
import Breadboard.Proofs.Safety.Counts
import Breadboard.Proofs.Safety.Engine
import Breadboard.Proofs.Safety.Faults
import Breadboard.Proofs.Safety.Interruption
import Breadboard.Proofs.Safety.Nets
import Breadboard.Proofs.Safety.Runs
import Breadboard.Proofs.Safety.Signals
import Breadboard.Proofs.Signal.Literals
import Breadboard.Proofs.Signal.Vectors
import Breadboard.Proofs.Signal.WiredOr
import Breadboard.Proofs.Wave.Fidelity
import Breadboard.Proofs.Wave.Naming
import Breadboard.Proofs.Wave.Reading
import Breadboard.Proofs.Wave.Recording
import Breadboard.Proofs.Wave.Words
import Breadboard.Proofs.Workshop.Actions
import Breadboard.Proofs.Workshop.Gating
import Breadboard.Proofs.Workshop.Handles
import Breadboard.Proofs.Workshop.Reloading
import Breadboard.Proofs.Workshop.Reports
import Breadboard.Proofs.Workshop.Soundness
import Breadboard.Proofs.Workshop.Stability
import Breadboard.Run.Batch
import Breadboard.Run.Drive
import Breadboard.Run.Reading
import Breadboard.Samples
import Breadboard.Shell.Arguments
import Breadboard.Shell.Commands
import Breadboard.Shell.Directory
import Breadboard.Shell.Path
import Breadboard.Shell.Program
import Breadboard.Signal.Basic
import Breadboard.Signal.Bus
import Breadboard.Signal.Literal
import Breadboard.Text.Blank
import Breadboard.Text.Caseless
import Breadboard.Text.Digits
import Breadboard.Text.Quoted
import Breadboard.Text.Unprinted
import Breadboard.Toml.Basic
import Breadboard.Toml.Moment
import Breadboard.Toml.Number
import Breadboard.Toml.Reader
import Breadboard.Toml.Text
import Breadboard.Wave.Dump
import Breadboard.Wave.Tracer
