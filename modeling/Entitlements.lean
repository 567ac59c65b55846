import Entitlements.Directory.Cached
import Entitlements.Directory.Memory
import Entitlements.Http.Client
import Entitlements.Review.Audit
import Entitlements.Review.Coverage
import Entitlements.Review.Resolution
import Entitlements.Review.Responsibility
import Entitlements.Proofs.Cache.Coherence
import Entitlements.Proofs.Cache.Transparency
import Entitlements.Proofs.Grants.Merge
import Entitlements.Proofs.Statement.Layout
import Entitlements.Proofs.Pages.Collection
import Entitlements.Proofs.Pages.Memory
import Entitlements.Proofs.Responsibility.Wire
import Entitlements.Proofs.Responsibility.Chart
import Entitlements.Proofs.Coverage.Groups
import Entitlements.Proofs.Grants.SameGrants
import Entitlements.Proofs.Coverage.Matrix
import Entitlements.Proofs.Coverage.Agreement
import Entitlements.Proofs.Access.FirstFailure
import Entitlements.Proofs.Review.Failures
import Entitlements.Proofs.Cache.Recency
import Entitlements.Proofs.Cache.Accounting
import Entitlements.Proofs.Review.Views
import Entitlements.Proofs.Http.Calls
import Entitlements.Proofs.Http.Address
import Entitlements.Proofs.Http.Hosts
import Entitlements.Proofs.Http.Targets
import Entitlements.Proofs.Review.Listings
import Entitlements.Proofs.Wire.Outcomes
import Entitlements.Proofs.Coverage.Wire
import Entitlements.Proofs.Statement.Wildcards
import Entitlements.Proofs.Statement.NormalForm
import Entitlements.Proofs.Responsibility.Growth
import Entitlements.Proofs.Statement.Isolation
import Entitlements.Proofs.Access.Always
import Entitlements.Proofs.Http.Bindings
import Entitlements.Proofs.Review.Identifiers
import Entitlements.Proofs.Pages.Partition
import Entitlements.Proofs.Cache.Frame
import Entitlements.Proofs.Access.Spends
import Entitlements.Proofs.Review.CallCounts
import Entitlements.Proofs.Statement.LetterCase
import Entitlements.Proofs.Review.Findings
import Entitlements.Proofs.Grants.Building
import Entitlements.Proofs.Cache.Expiry
import Entitlements.Proofs.Retry.Bounds
