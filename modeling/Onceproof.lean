import Onceproof.Service.Requests
import Onceproof.Guarantees.SingleUse
import Onceproof.Guarantees.Idempotency
import Onceproof.Guarantees.Quota
import Onceproof.Guarantees.Revocation
import Onceproof.Guarantees.Rotation
import Onceproof.Guarantees.KeyCustody
import Onceproof.Guarantees.Coherence
import Onceproof.Guarantees.Fingerprint
import Onceproof.Guarantees.TokenFormat
import Onceproof.Guarantees.Reconciliation
import Onceproof.Guarantees.BackupRecovery
import Onceproof.Guarantees.FaultAtomicity
import Onceproof.Guarantees.KeyringHistory
import Onceproof.Guarantees.Authentication
import Onceproof.Guarantees.StoredDecisions
import Onceproof.Guarantees.Footprint
import Onceproof.Guarantees.CredentialStates
import Onceproof.Guarantees.Readiness
import Onceproof.Guarantees.Grammar
import Onceproof.Guarantees.Lifecycle
import Onceproof.Guarantees.CachedReads
import Onceproof.Guarantees.RetryAfter
import Onceproof.Guarantees.Delivery
import Onceproof.Guarantees.KeyringReload
import Onceproof.Guarantees.Chunking
import Onceproof.Guarantees.ClientInput
import Onceproof.Guarantees.BackupVerification
import Onceproof.Guarantees.Initialization
import Onceproof.Guarantees.ServedBodies
import Onceproof.Guarantees.Survival
import Onceproof.Guarantees.Forgetting
import Onceproof.Guarantees.Isolation
import Onceproof.Guarantees.Restoration
import Onceproof.Guarantees.Retirement
import Onceproof.Guarantees.Progress
