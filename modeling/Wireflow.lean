import Wireflow.Theorems.Conditions
import Wireflow.Theorems.DisabledPeers
import Wireflow.Theorems.Firewall.BackEnds
import Wireflow.Theorems.HashStability
import Wireflow.Theorems.Leases.Runs
import Wireflow.Theorems.Leases.Scanning
import Wireflow.Theorems.Lifecycle.ConsistentRuns
import Wireflow.Theorems.NetworkLabels
import Wireflow.Theorems.Node.Configuration
import Wireflow.Theorems.Node.DirectPath
import Wireflow.Theorems.Node.GivingUp
import Wireflow.Theorems.Node.IceHandshakes
import Wireflow.Theorems.Node.Listening
import Wireflow.Theorems.Node.NilPointers
import Wireflow.Theorems.Node.Pushes
import Wireflow.Theorems.Node.Registration
import Wireflow.Theorems.Node.RelayHandshake
import Wireflow.Theorems.Node.Transitions
import Wireflow.Theorems.Node.Transports
import Wireflow.Theorems.PeerCommands
import Wireflow.Theorems.PolicyMeaning
import Wireflow.Theorems.Progress.Runs
import Wireflow.Theorems.Propagation
import Wireflow.Theorems.ReadErrors
import Wireflow.Theorems.Relay.Addressing
import Wireflow.Theorems.Relay.Writing
import Wireflow.Theorems.RelayServers
import Wireflow.Theorems.Server.ApprovalGate
import Wireflow.Theorems.Server.Decisions
import Wireflow.Theorems.Server.Dispatching
import Wireflow.Theorems.Server.Identity
import Wireflow.Theorems.Server.Tenants
import Wireflow.Theorems.Server.TokenLookup
import Wireflow.Theorems.Subnets.Concurrent
import Wireflow.Theorems.Subnets.Leaks
import Wireflow.Theorems.Subnets.PoolEdits
import Wireflow.Theorems.Subnets.SearchEnds
