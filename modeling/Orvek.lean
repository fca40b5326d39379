import Orvek.Context.Budget
import Orvek.Context.ToolPairs
import Orvek.Context.Epochs
import Orvek.Context.Manifests
import Orvek.Context.Views
import Orvek.Lib.Sha256
import Orvek.Lib.FileTree
import Orvek.Workspace.Snapshot
import Orvek.Workspace.Links
import Orvek.Store.Certified
import Orvek.Store.Leases
import Orvek.Store.Usage
import Orvek.Store.Amendments
import Orvek.Store.Obligations
import Orvek.Store.History
import Orvek.Store.Quiescence
import Orvek.Store.Runner
import Orvek.Events.Schedule
import Orvek.Store.Monitor
import Orvek.Store.Auxiliary
import Orvek.Store.Cells
import Orvek.Memory.Versions
import Orvek.Controller.Notification
import Orvek.Controller.EventIntake
import Orvek.Memory.Transfers
import Orvek.Memory.Export
import Orvek.Memory.Outcomes
import Orvek.Runtime.Confined
import Orvek.Runtime.Publish
import Orvek.Store.Shells
import Orvek.Controller.Delivered
import Orvek.Lib.Decimals
import Orvek.Inference.Cost
import Orvek.Lib.Elimination
import Orvek.Dependencies
import Orvek.Lib.Worklist
import Orvek.Store.ArtifactGraph
import Orvek.Lib.ThreeWay
import Orvek.Workspace.Reconcile
import Orvek.Store.ToolResults
import Orvek.Inference.Auth
import Orvek.Store.Pages
import Orvek.Inference.Decoder
import Orvek.Inference.Sse
import Orvek.Inference.Transport
import Orvek.Lib.Forest
import Orvek.Tui.TreeLayout
import Orvek.Controller.Verification
import Orvek.Lib.Encoded
import Orvek.Capabilities.Output
import Orvek.Capabilities.Native
import Orvek.Context.Painting
import Orvek.Tui.Diff
import Orvek.Review.Anchors
import Orvek.Tui.Attachments
import Orvek.Workspace.Patches
import Orvek.Sloppiness.RustComments
import Orvek.Tui.References
import Orvek.Ipc.CatchUp
import Orvek.Lib.Fifo
import Orvek.Tui.HostProjection
import Orvek.Tui.Projected
