import Concolic.Main
import Concolic.Proofs.Protocol
import Concolic.Proofs.Exclusion
import Concolic.Proofs.Independence
import Concolic.Proofs.Renewal
import Concolic.Proofs.Budget
import Concolic.Proofs.Observers
import Concolic.Proofs.Ledger
import Concolic.Proofs.Copying
import Concolic.Proofs.Request
import Concolic.Proofs.CommandLine
import Concolic.Proofs.Overlay
import Concolic.Proofs.Quoting
import Concolic.Proofs.CivilTime
import Concolic.Proofs.Spans
import Concolic.Proofs.Siblings
