import DependencyAudit.Main
import DependencyAudit.Proofs.Consistency
import DependencyAudit.Proofs.Reaudit
import DependencyAudit.Proofs.Writing
import DependencyAudit.Proofs.Cutting
import DependencyAudit.Proofs.HeaderGrammar
import DependencyAudit.Proofs.HeaderLayout
import DependencyAudit.Proofs.HeaderRoundTrip
import DependencyAudit.Proofs.Unused
import DependencyAudit.Proofs.Directories
import DependencyAudit.Proofs.Following
import DependencyAudit.Proofs.Searches
import DependencyAudit.Proofs.Isolation
import DependencyAudit.Proofs.JsonRoundTrip
import DependencyAudit.Proofs.Mangling
import DependencyAudit.Proofs.Joining
import DependencyAudit.Proofs.Redetection
import DependencyAudit.Proofs.HeaderBody
import DependencyAudit.Proofs.Climbing
import DependencyAudit.Proofs.ReportReading
import DependencyAudit.Proofs.Colouring
import DependencyAudit.Proofs.Requests
