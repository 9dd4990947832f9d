import MpcCoordinator.General.Run
import MpcCoordinator.General.Loop
import MpcCoordinator.General.Table
import MpcCoordinator.General.Slots
import MpcCoordinator.General.Journal
import MpcCoordinator.General.Mail
import MpcCoordinator.General.Purge
import MpcCoordinator.General.Gather
import MpcCoordinator.General.Batch
import MpcCoordinator.General.Blocks
import MpcCoordinator.General.Framing
import MpcCoordinator.General.Refinement
import MpcCoordinator.General.Recency
import MpcCoordinator.General.Handles
import MpcCoordinator.Shared
import MpcCoordinator.Topology
import MpcCoordinator.Rpc
import MpcCoordinator.Client.WaitForIndices
import MpcCoordinator.Execution.State
import MpcCoordinator.Execution.Rounds
import MpcCoordinator.Execution.Vote
import MpcCoordinator.Execution.Reserve
import MpcCoordinator.Execution.Submit
import MpcCoordinator.Execution.Subscribe
import MpcCoordinator.Execution.Step
import MpcCoordinator.Execution.Coherent
import MpcCoordinator.Execution.Records
import MpcCoordinator.Execution.Applied
import MpcCoordinator.Execution.Cascade
import MpcCoordinator.Execution.Shortcuts
import MpcCoordinator.Execution.Quorum
import MpcCoordinator.Execution.Quiescence
import MpcCoordinator.Execution.DeadEnds
import MpcCoordinator.Execution.Completion
import MpcCoordinator.Execution.Ballot
import MpcCoordinator.Execution.VoteOrder
import MpcCoordinator.Execution.MaskedHistory
import MpcCoordinator.Execution.Batches
import MpcCoordinator.Execution.Reservations
import MpcCoordinator.Execution.Provenance
import MpcCoordinator.Execution.Layout
import MpcCoordinator.Execution.Outputs
import MpcCoordinator.Execution.Topics
import MpcCoordinator.Execution.Streams
import MpcCoordinator.Execution.Waiting
import MpcCoordinator.Server.Registry
import MpcCoordinator.Browser.Credentials
import MpcCoordinator.Browser.Tables
import MpcCoordinator.Browser.Bind
import MpcCoordinator.Browser.Listener
import MpcCoordinator.Browser.Effects
import MpcCoordinator.Browser.Projection
import MpcCoordinator.Browser.Provenance
import MpcCoordinator.Browser.Pinning
import MpcCoordinator.Browser.Authentication
import MpcCoordinator.Browser.Replay
import MpcCoordinator.Browser.NonceWindow
import MpcCoordinator.Browser.Resolution
import MpcCoordinator.Browser.Messages
import MpcCoordinator.Browser.SignCounts
import MpcCoordinator.Browser.NonceKeys
import MpcCoordinator.Browser.Status
import MpcCoordinator.Browser.StatusView
import MpcCoordinator.Server.Crowded
import MpcCoordinator.Server.Eviction
import MpcCoordinator.Server.Tombstones
import MpcCoordinator.Server.Retirement
import MpcCoordinator.Server.Worn
import MpcCoordinator.Server.Progress
import MpcCoordinator.Server.OneOff
import MpcCoordinator.Server.Shutdown
import MpcCoordinator.Stream.Service
import MpcCoordinator.Stream.Subscriptions
import MpcCoordinator.Stream.Tracking
import MpcCoordinator.Stream.Announcements
import MpcCoordinator.Stream.Histories
import MpcCoordinator.Stream.Inputs
import MpcCoordinator.Stream.InputSharing
import MpcCoordinator.Output.Service
import MpcCoordinator.Output.Delivery
import MpcCoordinator.Output.Waiters
import MpcCoordinator.Output.Snapshots
import MpcCoordinator.Native.Service
import MpcCoordinator.Native.Isolation
import MpcCoordinator.Native.Atomic
import MpcCoordinator.Node.State
import MpcCoordinator.Node.Ownership
import MpcCoordinator.Node.Wakeup
import MpcCoordinator.Node.Completion
import MpcCoordinator.Node.Batches
import MpcCoordinator.Node.Ceremonies
import MpcCoordinator.Node.Server
import MpcCoordinator.Node.Disclosure
import MpcCoordinator.Node.MaskDelivery
import MpcCoordinator.OnChain.State
import MpcCoordinator.OnChain.Step
import MpcCoordinator.OnChain.Requests
import MpcCoordinator.OnChain.Authentication
import MpcCoordinator.OnChain.Exchange
import MpcCoordinator.OnChain.ReceiveMask
import MpcCoordinator.OnChain.Panics
import MpcCoordinator.OnChain.Relay
import MpcCoordinator.OnChain.Nonces
import MpcCoordinator.OnChain.Outputs
import MpcCoordinator.Client.Shares
import MpcCoordinator.Client.Unmask
import MpcCoordinator.Client.WaitForInputs
import MpcCoordinator.Client.AwaitIndices
import MpcCoordinator.Client.ReceiveMasks
import MpcCoordinator.Client.ObtainOutputs
import MpcCoordinator.Client.SendOutputs
import MpcCoordinator.Output.RoundTrip
import MpcCoordinator.Bins.RunCoord
import MpcCoordinator.Bins.StartUp
