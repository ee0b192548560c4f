import WalFlux.System.Maintained
import WalFlux.System.Provision
import WalFlux.Protocol.Accepts
import WalFlux.System.Unchanged
import WalFlux.ConfigFile.Names
import WalFlux.Lsn
import WalFlux.Daemon.FlushLoop
import WalFlux.Daemon.Deadlines
import WalFlux.Bootstrap.Outcome
import WalFlux.ConfigFile.Written
import WalFlux.System.Progress
import WalFlux.System.Program
import WalFlux.Aggregates.Texts
import WalFlux.Aggregates.Emptiness
import WalFlux.System.Delivery
import WalFlux.System.Sources
