import MergedMining.Delivery
import MergedMining.Json.Store
import MergedMining.Main
import MergedMining.Store.Outside
import MergedMining.Submission
import MergedMining.Sync
import MergedMining.Tasks
import MergedMining.Tracking
import MergedMining.Proofs.Sha256
import MergedMining.Proofs.Collision
import MergedMining.Proofs.Merkle.Fold
import MergedMining.Proofs.AuxProof.Commitment
import MergedMining.Proofs.Wire.Count
import MergedMining.Proofs.AuxProof.Exclusive
import MergedMining.Proofs.Merkle.Root
import MergedMining.Proofs.Merkle.Extraction
import MergedMining.Proofs.Submission.Inclusion
import MergedMining.Proofs.Store.Rows
import MergedMining.Proofs.Sync.Replay
import MergedMining.Proofs.Store.Calls
import MergedMining.Proofs.Sync.Convergence
import MergedMining.Proofs.Sync.Unspent
import MergedMining.Proofs.Wire.RoundTrip
import MergedMining.Proofs.Merkle.Soundness
import MergedMining.Proofs.Merkle.Rebuilding
import MergedMining.Proofs.Merkle.Verifying
import MergedMining.Proofs.Merkle.Climbing
import MergedMining.Proofs.Merkle.Alternating
import MergedMining.Proofs.Merkle.Sides
import MergedMining.Proofs.Watch.Announcements
import MergedMining.Proofs.Submission.Acceptance
import MergedMining.Proofs.Watch.Moves
import MergedMining.Proofs.Watch.Delivery
import MergedMining.Proofs.Watch.Session
import MergedMining.Proofs.Watch.Sends
import MergedMining.Proofs.AuxProof.Slots
import MergedMining.Proofs.AuxProof.Genuine
import MergedMining.Proofs.AuxProof.Accepting
import MergedMining.Proofs.Hex
import MergedMining.Proofs.MainChain.SideMining
import MergedMining.Proofs.Submission.Calls
import MergedMining.Proofs.Store.Numbered
import MergedMining.Proofs.Settled.Linkage
import MergedMining.Proofs.Settled.History
import MergedMining.Proofs.CatchUp.Run
import MergedMining.Proofs.CatchUp.Forward
import MergedMining.Proofs.Records.Keyed
import MergedMining.Proofs.Records.Ordered
import MergedMining.Proofs.Records.Tables
import MergedMining.Proofs.Records.Kinds
import MergedMining.Proofs.Records.Main
import MergedMining.Proofs.Store.Sessions
import MergedMining.Proofs.Store.Handles
import MergedMining.Proofs.Store.Reopening
import MergedMining.Proofs.Records.Reopening
import MergedMining.Proofs.Records.Registry
import MergedMining.Proofs.Records.Side
import MergedMining.Proofs.Records.Settled
import MergedMining.Proofs.Records.Batches
import MergedMining.Proofs.Records.FirstWriter
import MergedMining.Proofs.Records.Presence
import MergedMining.Proofs.Config
import MergedMining.Proofs.CatchUp.Parts
import MergedMining.Proofs.Store.Parts
import MergedMining.Proofs.Sync.Share
import MergedMining.Proofs.Sync.Isolation
import MergedMining.Proofs.Records.Heights
import MergedMining.Proofs.Wire.PrefixFree
import MergedMining.Proofs.Sync.Resets
import MergedMining.Proofs.Machine.Word
import MergedMining.Proofs.Machine.Reading
import MergedMining.Proofs.Machine.Formats
import MergedMining.Proofs.Machine.Walking
import MergedMining.Proofs.Machine.Branches
import MergedMining.Proofs.Machine.Checking
import MergedMining.Proofs.Merkle.Revealing
import MergedMining.Proofs.Submission.Branches
import MergedMining.Proofs.Merkle.Binding
import MergedMining.Proofs.MainChain.Identity
import MergedMining.Proofs.Watch.Selection
import MergedMining.Proofs.Amount
import MergedMining.Proofs.Node.Replies
import MergedMining.Proofs.Submission.Headers
import MergedMining.Proofs.Sync.Rescan
import MergedMining.Proofs.CatchUp.Trail
import MergedMining.Proofs.Sync.Report
