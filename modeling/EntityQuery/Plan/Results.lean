import EntityQuery.Plan.Basic
import EntityQuery.Result.Merge
import EntityQuery.Result.Reading

/-!
# The results of a plan

How the rows of a plan become results: one for each row, or, where a collection is fetched, one for
all rows that belong together.
-/

namespace EntityQuery.Plan

def result (plan : Plan) (values : List ResultValue) : QueryResult :=
  match plan.shape, values with
  | some shape, values => .dynamic shape ((plan.returns.map (·.alias?)).zip values)
  | none, [value] => .single value
  | none, values => .tuple values

def readRow (plan : Plan) (row : Row) : Except ExecutionFault QueryResult := do
  return plan.result (← row.values plan.returns plan.fetches)

def readRows (plan : Plan) (rows : List Row) : Except ExecutionFault (List QueryResult) := do
  let values ← rows.mapM fun row => row.values plan.returns plan.fetches
  let merged := if plan.kind.fetchesCollection then mergeRows values else values
  return merged.map plan.result

end EntityQuery.Plan
