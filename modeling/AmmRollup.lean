import AmmRollup.Chain
import AmmRollup.Main
import AmmRollup.Proofs.Bracketing
import AmmRollup.Proofs.Consent
import AmmRollup.Proofs.Encodings
import AmmRollup.Proofs.Fetched
import AmmRollup.Proofs.Issued
import AmmRollup.Proofs.Json.Types
import AmmRollup.Proofs.Merkle.Binding
import AmmRollup.Proofs.Pool.Product
import AmmRollup.Proofs.Pool.Redemption
import AmmRollup.Proofs.Pool.Shares
import AmmRollup.Proofs.Proposer.Windows
import AmmRollup.Proofs.Restarts
import AmmRollup.Proofs.Resume
import AmmRollup.Proofs.Rollup.Claims
import AmmRollup.Proofs.Rollup.Pools
import AmmRollup.Proofs.Rollup.Rejected
import AmmRollup.Proofs.Rollup.Replay
import AmmRollup.Proofs.Store.Race
import AmmRollup.Proofs.Transition.Stages
import AmmRollup.Proofs.Withdrawals
import AmmRollup.Rollup.Intent
import AmmRollup.Store.Memory
import AmmRollup.Transition.Trees
