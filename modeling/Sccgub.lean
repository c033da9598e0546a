import Sccgub.Bincode
import Sccgub.Crypto
import Sccgub.FixedWidth
import Sccgub.Fallible
import Sccgub.Quorum
import Sccgub.Types.Agent
import Sccgub.Types.ValidatorSet
import Sccgub.Types.Transition
import Sccgub.Types.Block
import Sccgub.Types.Params
import Sccgub.Types.Ceilings
import Sccgub.Types.Namespace
import Sccgub.Types.CausalGraph
import Sccgub.Types.Economics
import Sccgub.WriteThrough
import Sccgub.State.Trie
import Sccgub.State.World
import Sccgub.State.Apply
import Sccgub.State.System
import Sccgub.State.KeyRotation
import Sccgub.Execution.Constraints
import Sccgub.Execution.Scce
import Sccgub.Execution.Checks
import Sccgub.Execution.Phi
import Sccgub.Execution.Validate
import Sccgub.Execution.Cpog
import Sccgub.Execution.View
import Sccgub.Execution.Authorization
import Sccgub.Execution.KeyCheck
import Sccgub.Consensus.Protocol
import Sccgub.Consensus.Safety
import Sccgub.Consensus.ForkEvidence
import Sccgub.Consensus.Equivocation
import Sccgub.Network.Messages
import Sccgub.Execution.ValidatorSetAdmission
import Sccgub.OrderedMap
import Sccgub.MerkleTree
import Sccgub.Governance.Proposals
import Sccgub.Consensus.Finality
import Sccgub.Consensus.Agreement
import Sccgub.Consensus.ViewChange
import Sccgub.Node.Governance
import Sccgub.Node.GovernanceReplay
import Sccgub.Node.SignedEffect
import Sccgub.Node.BodyBinding
import Sccgub.Node.Constants
import Sccgub.Node.TrieLedger
import Sccgub.State.Escrow
import Sccgub.State.EscrowConservation
import Sccgub.State.Coherence
import Sccgub.Execution.Namespaces
import Sccgub.Execution.Receipts
import Sccgub.Node.Mempool
import Sccgub.Node.Chain
import Sccgub.Node.Produce
import Sccgub.Node.Reconstruct
import Sccgub.Runs
import Sccgub.State.Supply
import Sccgub.State.Commitment
import Sccgub.State.KeyHistory
import Sccgub.Node.Linkage
import Sccgub.Node.ForkChoice
import Sccgub.Node.Moves
import Sccgub.Node.Speculation
import Sccgub.Node.Certificates
import Sccgub.Node.Steps
import Sccgub.Node.Backing
import Sccgub.Execution.ValidatorSetSweeps
import Sccgub.Governance.TypedProposals
import Sccgub.Node.Addressing
import Sccgub.Node.FinalityAgreement
import Sccgub.Node.ParamRange
import Sccgub.Node.Proposers
import Sccgub.Node.Signers
import Sccgub.OrderStatistics
import Sccgub.SplitProduct
import Sccgub.Types.FeeOracle
import Sccgub.State.Assets
import Sccgub.Types.Layouts
import Sccgub.Node.PeerBook
import Sccgub.Node.AntiConcentration
import Sccgub.Node.Atomicity
import Sccgub.Consensus.FinalityDepth
import Sccgub.Loop
import Sccgub.Consensus.FinalitySequence
import Sccgub.Consensus.LeaderSelection
import Sccgub.Consensus.Partition
import Sccgub.Node.Accounting
import Sccgub.Node.DoubleVotes
import Sccgub.Node.Repeats
import Sccgub.Node.Nonces
import Sccgub.State.Inclusion
import Sccgub.State.ValidatorSetPast
import Sccgub.Execution.Attribution
import Sccgub.Audit.Verifier
import Sccgub.BreadthFirst
import Sccgub.DepthFirst
import Sccgub.Execution.Contract
import Sccgub.Execution.ForgeryVeto
import Sccgub.OrderedScan
import Sccgub.State.PrefixScan
import Sccgub.Execution.ScceWalk
import Sccgub.Execution.ConstraintKeys
import Sccgub.Types.Acyclicity
import Sccgub.Types.Canonical
import Sccgub.Node.SlashedFunds
import Sccgub.Node.Stakes
import Sccgub.State.BalanceLoading
import Sccgub.Selection
import Sccgub.Consensus.ForkChoice
import Sccgub.Types.Artifact
import Sccgub.Types.Domain
import Sccgub.Crypto.Roles
import Sccgub.Governance.Containment
import Sccgub.Envelope
import Sccgub.Apportion
import Sccgub.AtomicFiles
import Sccgub.Types.Quotient
import Sccgub.TruncatedPower
import Sccgub.Types.Delegation
import Sccgub.Governance.Responsibility
import Sccgub.Governance.Decay
import Sccgub.Governance.Norms
import Sccgub.Governance.Replicator
import Sccgub.State.Pruning
import Sccgub.State.PrunedReplay
import Sccgub.Node.Persistence
import Sccgub.Node.Reload
import Sccgub.Node.Replays
import Sccgub.Node.Recovery
import Sccgub.Node.CatchUp
import Sccgub.Node.GasLoop
import Sccgub.Node.Liveness
import Sccgub.Node.Snapshots
