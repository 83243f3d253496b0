import ShaP2Pool.Sharechain.InMemory
import ShaP2Pool.Proof.Fatal
import ShaP2Pool.Proof.ShareWindow
import ShaP2Pool.Proof.Difficulty
import ShaP2Pool.Proof.Payout
import ShaP2Pool.Proof.Template
import ShaP2Pool.Proof.Acceptance
import ShaP2Pool.Proof.Work
import ShaP2Pool.Proof.Coinbases
import ShaP2Pool.Proof.Agreement
import ShaP2Pool.Proof.Pruning
import ShaP2Pool.Proof.Overflow
import ShaP2Pool.Proof.Commitment
import ShaP2Pool.Proof.Service
import ShaP2Pool.Proof.Linkage
import ShaP2Pool.Proof.Uncles
import ShaP2Pool.Sharechain.Storage
import ShaP2Pool.Proof.Topmost
import ShaP2Pool.Proof.Reload
import ShaP2Pool.Proof.Queue
import ShaP2Pool.Proof.Waiting
import ShaP2Pool.Proof.ForkChoice
import ShaP2Pool.Proof.Lookups
import ShaP2Pool.Proof.Paging
import ShaP2Pool.Proof.CatchUp
import ShaP2Pool.Proof.Peers
import ShaP2Pool.Proof.Punishment
import ShaP2Pool.Proof.Permits
import ShaP2Pool.Proof.Depth
import ShaP2Pool.Proof.Diagnostics
import ShaP2Pool.Proof.Templates
import ShaP2Pool.Proof.Resume
import ShaP2Pool.Proof.Termination
import ShaP2Pool.Proof.Panics
import ShaP2Pool.Library.StableSort
import ShaP2Pool.Proof.ShareCount
import ShaP2Pool.Proof.TipMoves
import ShaP2Pool.Proof.Cascade
import ShaP2Pool.Proof.LevelBound
import ShaP2Pool.Proof.Reachable
import ShaP2Pool.Proof.Timestamps
import ShaP2Pool.Library.Highest
import ShaP2Pool.Proof.Relays
import ShaP2Pool.Proof.ReportedTip
import ShaP2Pool.Proof.Batch
import ShaP2Pool.Proof.ShareCache
import ShaP2Pool.Proof.Provenance
import ShaP2Pool.Proof.Topics
import ShaP2Pool.Proof.Session
import ShaP2Pool.Proof.Churn
import ShaP2Pool.Proof.Dialing
import ShaP2Pool.Proof.Growth
import ShaP2Pool.Proof.Following
import ShaP2Pool.Proof.Deliveries
import ShaP2Pool.Proof.Miners
import ShaP2Pool.Server.DiagnosticMode
import ShaP2Pool.Proof.DiagnosticMode
