import LocalAgent.Lib.Fold
import LocalAgent.Lib.Position
import LocalAgent.Lib.Program
import LocalAgent.Lib.System
import LocalAgent.Core.Run
import LocalAgent.Core.Event
import LocalAgent.Core.Tool
import LocalAgent.Recovery.State
import LocalAgent.Recovery.Reducer
import LocalAgent.Recovery.InPlace
import LocalAgent.Recovery.Rules
import LocalAgent.Recovery.Flags
import LocalAgent.Harness.Context
import LocalAgent.Recovery.Recover
import LocalAgent.Harness.Ports
import LocalAgent.Harness.Execution
import LocalAgent.Harness.Operations
import LocalAgent.Harness.Durable
import LocalAgent.Harness.View
import LocalAgent.Recovery.Effects
import LocalAgent.Graph.Resume
import LocalAgent.Loop.Resume
import LocalAgent.Harness.Track
import LocalAgent.Harness.Conduct
import LocalAgent.Harness.Calls
import LocalAgent.Harness.Methods
import LocalAgent.Harness.Waits
import LocalAgent.Harness.Client
import LocalAgent.Harness.Clients
import LocalAgent.Harness.Endings
import LocalAgent.Harness.Reasons
import LocalAgent.Harness.WriteAhead
import LocalAgent.Recovery.Guards
import LocalAgent.Store.Sqlite
import LocalAgent.Store.Log
import LocalAgent.Lib.Page
import LocalAgent.Store.Read
import LocalAgent.Store.World
import LocalAgent.Store.Consistent
import LocalAgent.Store.Runs
import LocalAgent.Store.Budgets
import LocalAgent.Lib.Trail
import LocalAgent.Store.Approvals
import LocalAgent.Store.Waiting
import LocalAgent.Store.Dispatch
import LocalAgent.Lib.Dialogue
import LocalAgent.Harness.Ledger
import LocalAgent.Harness.Sync
import LocalAgent.Containment.Linux
import LocalAgent.Harness.Progress
import LocalAgent.Lib.Stateful
import LocalAgent.Mcp.Session
import LocalAgent.Mcp.Gating
import LocalAgent.Lib.Feed
import LocalAgent.Service.Events
import LocalAgent.Service.Delivery
import LocalAgent.Lib.Runtime
import LocalAgent.Service.Runs
import LocalAgent.Service.Slots
import LocalAgent.Service.Active
import LocalAgent.Service.Drain
import LocalAgent.Service.Leaks
import LocalAgent.Service.Exclusive
import LocalAgent.Harness.Routine
import LocalAgent.Harness.Clock
import LocalAgent.Store.Clock
import LocalAgent.Deployment.Backup
import LocalAgent.Deployment.Restore
import LocalAgent.Service.Deployed
import LocalAgent.Service.Mutations
import LocalAgent.Service.Closing
import LocalAgent.Service.Capacity
import LocalAgent.Service.Queue
import LocalAgent.Store.Catalog
import LocalAgent.Service.Discover
import LocalAgent.Harness.Refused
import LocalAgent.Graph.Definition
import LocalAgent.Containment.Paths
import LocalAgent.Harness.Arguments
import LocalAgent.Harness.Seal
import LocalAgent.Containment.Frame
import LocalAgent.Desktop.Client
import LocalAgent.Desktop.Merge
import LocalAgent.Desktop.Conversation
import LocalAgent.Desktop.Place
import LocalAgent.Deployment.Create
import LocalAgent.Graph.Digest
import LocalAgent.Core.Json
import LocalAgent.Harness.ActionDigest
import LocalAgent.Knowledge.Evidence
import LocalAgent.Knowledge.Manifest
import LocalAgent.Knowledge.Merge
import LocalAgent.Knowledge.Duplicates
import LocalAgent.Knowledge.Render
import LocalAgent.Containment.Framing
import LocalAgent.Containment.WriteFile
import LocalAgent.Harness.Limits
import LocalAgent.Mcp.Lines
import LocalAgent.Service.Title
import LocalAgent.Deployment.SealKey
import LocalAgent.Desktop.Pages
import LocalAgent.Core.Raw
import LocalAgent.Mvp.Output
import LocalAgent.Harness.TextAction
import LocalAgent.Deployment.Config
import LocalAgent.Desktop.Waiting
import LocalAgent.Graph.Engine
import LocalAgent.Harness.Emission
import LocalAgent.Graph.Agreement
import LocalAgent.Graph.Traces
import LocalAgent.Graph.Runs
