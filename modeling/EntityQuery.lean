import EntityQuery.Main
import EntityQuery.Proofs.Coalesce
import EntityQuery.Proofs.Cursor.Scrolling
import EntityQuery.Proofs.Lifecycle
import EntityQuery.Proofs.Negation
import EntityQuery.Proofs.Paging
import EntityQuery.Proofs.Plan.Acceptance
import EntityQuery.Proofs.Plan.Aliases
import EntityQuery.Proofs.Plan.Cleanup
import EntityQuery.Proofs.Plan.Conditions
import EntityQuery.Proofs.Plan.Layout
import EntityQuery.Proofs.Plan.Lookups
import EntityQuery.Proofs.Plan.NormalForm
import EntityQuery.Proofs.Plan.OnClauses
import EntityQuery.Proofs.Plan.Shallow
import EntityQuery.Proofs.Plan.UsedTables
import EntityQuery.Proofs.Precedence
import EntityQuery.Proofs.Query.Integers
import EntityQuery.Proofs.Query.RoundTrip
import EntityQuery.Proofs.Query.Substitution
import EntityQuery.Proofs.Result.Extending
import EntityQuery.Proofs.Result.Landing
import EntityQuery.Proofs.Result.Reordering
import EntityQuery.Proofs.Result.Typed
import EntityQuery.Proofs.Sql.Literals
