import WarmPool.Http.Install
import WarmPool.Http.Session
import WarmPool.Main
import WarmPool.Proofs.Accounting
import WarmPool.Proofs.Acquisition
import WarmPool.Proofs.Addressing
import WarmPool.Proofs.Adoption
import WarmPool.Proofs.CrashConsistency
import WarmPool.Proofs.Creation
import WarmPool.Proofs.Deletion
import WarmPool.Proofs.Duration
import WarmPool.Proofs.Exclusivity
import WarmPool.Proofs.FailStop
import WarmPool.Proofs.FailureCount
import WarmPool.Proofs.Http.Finalizer
import WarmPool.Proofs.Json.Collapse
import WarmPool.Proofs.Json.Faithful
import WarmPool.Proofs.Landing
import WarmPool.Proofs.Minting
import WarmPool.Proofs.Noninterference
import WarmPool.Proofs.Ownership
import WarmPool.Proofs.Readiness
import WarmPool.Proofs.Recovery
import WarmPool.Proofs.Refusal
import WarmPool.Proofs.Retry
import WarmPool.Proofs.RoundTrip
import WarmPool.Proofs.Selection
import WarmPool.Proofs.Succession
import WarmPool.Proofs.TemplateKey
import WarmPool.Proofs.Transitions
import WarmPool.Proofs.Validation
import WarmPool.Proofs.Waking
import WarmPool.Rehearsal
import WarmPool.Wakeup
