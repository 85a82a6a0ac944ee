import AccessGuard.Subject.Fixed
import AccessGuard.Subject.Principal
import AccessGuard.Session
import AccessGuard.Value.Shape
import AccessGuard.Proofs.Mediation
import AccessGuard.Proofs.GrantMatching
import AccessGuard.Proofs.SelectorGrammar
import AccessGuard.Proofs.ByteOrder
import AccessGuard.Proofs.Decisions
import AccessGuard.Proofs.Strictness
import AccessGuard.Proofs.Collecting
import AccessGuard.Proofs.Declarations
import AccessGuard.Proofs.Documents
import AccessGuard.Proofs.Construction
import AccessGuard.Proofs.Reordering
import AccessGuard.Proofs.Monotonicity
import AccessGuard.Proofs.UnreadData
import AccessGuard.Proofs.Carrying
import AccessGuard.Proofs.ToggleSharing
import AccessGuard.Proofs.Reports
import AccessGuard.Proofs.GrantCoverage
import AccessGuard.Proofs.GrantSpelling
import AccessGuard.Proofs.OrderedCandidates
import AccessGuard.Proofs.WrittenJson
import AccessGuard.Proofs.ValueRoundTrip
import AccessGuard.Proofs.Filtering
import AccessGuard.Proofs.FailClosed
import AccessGuard.Proofs.Flattening
import AccessGuard.Proofs.EffectiveGrants
import AccessGuard.Proofs.LongerGrants
import AccessGuard.Proofs.NamedGrants
import AccessGuard.Proofs.Rechecking
import AccessGuard.Proofs.ConfigSources
import AccessGuard.Proofs.FieldPaths
import AccessGuard.Proofs.StoredIdentities
