import Roster.Cluster.Run
import Roster.Config.Load
import Roster.Json.Reader
import Roster.Observers.Scripted
import Roster.Report.Directory
import Roster.Proofs.Levels
import Roster.Proofs.Mapping
import Roster.Proofs.Drafting
import Roster.Proofs.Arranging
import Roster.Proofs.Adopting
import Roster.Proofs.Matching
import Roster.Proofs.Reconciling
import Roster.Proofs.Delivering
import Roster.Proofs.Turns
import Roster.Proofs.Settling
import Roster.Proofs.Intervening
import Roster.Proofs.Reaching
import Roster.Proofs.Draining
import Roster.Proofs.Accounting
import Roster.Proofs.Orderly
import Roster.Proofs.Members
import Roster.Proofs.Indexing
import Roster.Proofs.Consistency
import Roster.Proofs.Reuse
import Roster.Proofs.Current
import Roster.Proofs.Localities
import Roster.Proofs.Netting
import Roster.Proofs.Resending
import Roster.Proofs.Silence
import Roster.Proofs.Initializing
import Roster.Proofs.Lifecycle
import Roster.Proofs.Awaiting
import Roster.Proofs.Weighting
import Roster.Proofs.Agreeing
import Roster.Proofs.Enrolling
import Roster.Proofs.Notifying
import Roster.Proofs.Withholding
import Roster.Proofs.Unchecked
import Roster.Proofs.Converging
import Roster.Proofs.Mirroring
import Roster.Proofs.Reordering
import Roster.Proofs.Commuting
import Roster.Proofs.Permuting
import Roster.Proofs.Registering
import Roster.Proofs.Scheduling
import Roster.Proofs.Choosing
import Roster.Proofs.Stepping
import Roster.Proofs.Faultless
import Roster.Proofs.Leading
import Roster.Proofs.Gauging
import Roster.Proofs.Refusing
import Roster.Proofs.Queueing
import Roster.Proofs.Apportioning
import Roster.Proofs.Parsing
import Roster.Proofs.Rereading
import Roster.Proofs.Reloading
import Roster.Proofs.Keying
import Roster.Proofs.Firing
import Roster.Proofs.Outweighing
import Roster.Proofs.Labelling
import Roster.Proofs.Sifting
