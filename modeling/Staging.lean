import Staging.Fault
import Staging.Buffer.Id
import Staging.Text.Quoted
import Staging.Decimal.Binary
import Staging.Decimal.Shortest
import Staging.Decimal.Layout
import Staging.Decimal.Reader
import Staging.Scalar
import Staging.Shape
import Staging.Op
import Staging.Buffer.Store
import Staging.Schedule
import Staging.Counters
import Staging.Event
import Staging.Partition
import Staging.Random.Generator
import Staging.Kernel
import Staging.Engine.Error
import Staging.Engine.Basic
import Staging.Engine.Evaluation
import Staging.Machine
import Staging.Probe
import Staging.Plan
import Staging.Json.Error
import Staging.Json.Number
import Staging.Json.String
import Staging.Json.Skip
import Staging.Json.Reader
import Staging.Buffer.Encoding
import Staging.Graph.Error
import Staging.Graph.Basic
import Staging.Graph.Order
import Staging.Graph.Model
import Staging.Graph.Compile
import Staging.Settings
import Staging.Command.Arguments
import Staging.Command.Files
import Staging.Command.Perform
import Staging.Main
import Staging.Proofs.Schedule
import Staging.Proofs.Step
import Staging.Proofs.Run
import Staging.Proofs.Dependence
import Staging.Proofs.Closure
import Staging.Proofs.Split
import Staging.Proofs.Halves
import Staging.Proofs.Built
import Staging.Proofs.Order
import Staging.Proofs.Value
import Staging.Proofs.Session
import Staging.Proofs.Isolation
import Staging.Proofs.Representation
import Staging.Proofs.Classification
import Staging.Proofs.Compile
import Staging.Proofs.Ends
import Staging.Proofs.Evaluation
import Staging.Proofs.Soundness
import Staging.Proofs.Safety
import Staging.Proofs.Stopping
import Staging.Proofs.Work
import Staging.Proofs.Framing
import Staging.Proofs.Broadcast
import Staging.Proofs.Model
import Staging.Proofs.Acceptance
import Staging.Proofs.Product
import Staging.Proofs.Reduction
import Staging.Proofs.Draws
import Staging.Proofs.Alignment
import Staging.Proofs.Precedence
import Staging.Proofs.Rendered
import Staging.Proofs.Drawing
import Staging.Proofs.Quoting
