import Procherd.Lifecycle
import Procherd.Observation
import Procherd.Ports
import Procherd.LogAccounting
import Procherd.LogMatching
import Procherd.Collection
import Procherd.Interference
import Procherd.Creation
import Procherd.Evidence
import Procherd.Placeholders
import Procherd.LogPages
import Procherd.Endpoints
import Procherd.Identifiers
import Procherd.Releases
import Procherd.LogPresence
import Procherd.LogCoverage
import Procherd.Settled
import Procherd.WindowsDetach
import Procherd.ProbeRotation
import Procherd.HttpStatus
import Procherd.Arbitration
import Procherd.LogPaging
import Procherd.StateDocument
import Procherd.ForgedStop
import Procherd.Listing
import Procherd.Custody
import Procherd.CleanupReport
import Procherd.RegistryProgress
import Procherd.Replacement
import Procherd.Termination
