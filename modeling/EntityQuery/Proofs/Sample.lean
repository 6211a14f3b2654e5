import EntityQuery.PreparedQuery

/-!
# A small model

Persons with an address, an employer, orders and tags: one property of each
kind, and a filter on persons. Statements about particular queries are made
about this model.
-/

namespace EntityQuery.Sample

def person : Entity where
  name := "Person"
  table := "person"
  identifier := ⟨"id", "id", .integer⟩
  properties :=
    [⟨"name", .basic "name" .string⟩, ⟨"age", .basic "age" .integer⟩,
      ⟨"address", .component "Address" [⟨"street", "street", .string⟩, ⟨"city", "city", .string⟩]⟩,
      ⟨"employer", .association (.manyToOne "Company" "employer_id")⟩,
      ⟨"orders", .association (.oneToMany "Order" "person_id")⟩,
      ⟨"tags", .association (.manyToMany "Tag" "person_tag" "person_id" "tag_id")⟩]
  filters := [⟨"adults", "{alias}.age >= :minAge", [("minAge", .integer)]⟩]

def company : Entity :=
  ⟨"Company", "company", ⟨"id", "id", .integer⟩, [⟨"name", .basic "name" .string⟩], []⟩

def order : Entity where
  name := "Order"
  table := "orders"
  identifier := ⟨"id", "id", .integer⟩
  properties :=
    [⟨"total", .basic "total" .double⟩, ⟨"paid", .basic "paid" .boolean⟩,
      ⟨"customer", .association (.manyToOne "Person" "person_id")⟩]
  filters := []

def tag : Entity :=
  ⟨"Tag", "tag", ⟨"id", "id", .integer⟩, [⟨"label", .basic "label" .string⟩], []⟩

def model : Metamodel :=
  .ofEntities [person, company, order, tag]

/-- Compiles against the model, with the filter on persons switched on. -/
def compiler : Plan.Compiler where
  model := model
  dialect := .postgres
  filters := ⟨[("adults", [("minAge", .int 18)])]⟩
  shallow := false

/-- A single value and a list of two, for three rows at most. -/
def parameters : Parameters where
  named := [("a", .single (.int 40)), ("names", .list [.string "A", .string "B"])]
  selection := ⟨none, some 3⟩

def prepared (plan : Plan) : PreparedQuery where
  identifier := plan.identifier
  query := plan.query
  filters := compiler.filters
  model := compiler.model
  dialect := compiler.dialect
  compiled := some plan

/-- A person with their orders as a row shows them: one order, or none. -/
def personRow (id : Int) (order : Cell) : Row where
  names := List.replicate 10 "column"
  cells := [.int id, .text "A", .int 40, .null, .null, .null, order, .double ⟨0⟩, .bool true, .int id]

def personRows : List Row :=
  [personRow 1 (.int 7), personRow 2 .null, personRow 1 (.int 8), personRow 1 (.int 7)]

/-- A person as a row shows them when their orders are fetched twice. -/
def personTwiceRow (id : Int) (order again : Cell) : Row where
  names := List.replicate 14 "column"
  cells := (personRow id order).cells ++ [again, .double ⟨0⟩, .bool true, .int id]

def personTwiceQuery : String :=
  "select p from Person p left join fetch p.orders left join fetch p.orders"

/-- Two rows that bring the orders of a person crosswise. -/
def crosswiseRows : List Row :=
  [personTwiceRow 1 (.int 7) (.int 8), personTwiceRow 1 (.int 8) (.int 7)]

/-- A person who works for company 5, as a row shows them with one order, and with
the company if the join finds it. -/
def employedRow (order : Int) (employer : List Cell) : Row where
  names := List.replicate 12 "column"
  cells := [.int 1, .text "A", .int 40, .null, .null, .int 5, .int order, .double ⟨0⟩, .bool true,
    .int 1] ++ employer

def employedRows : List Row :=
  [employedRow 1 [.int 5, .text "Acme"], employedRow 5 [.int 5, .text "Acme"]]

/-- The employer is looked for only where an order has its number. -/
def conditionedQuery : String :=
  "select p from Person p left join fetch p.orders o left join fetch p.employer e with e.id = o.id"

def conditionedRows : List Row :=
  [employedRow 1 [.null, .null], employedRow 5 [.int 5, .text "Acme"]]

def agePlan : Plan where
  identifier := "q"
  query := "select p.age from Person p"
  filters := []
  shallow := false
  kind := .select false
  tables := ["person"]
  statements := []
  bindings := []
  returns := [⟨.columns (.scalar .integer), 0, .integer, none, ["col_0_0_"]⟩]
  fetches := []
  shape := none

/-- A stream that will be answered with these numbers. -/
def ages (numbers : List Int) : ResultStream where
  plan := agePlan
  statement := ⟨"select person0_.age as col_0_0_ from person person0_", []⟩
  connection := { replies := [{ rows := numbers.map fun n => ⟨["col_0_0_"], [.int n]⟩ }] }

def agesRead (numbers : List Int) : List QueryResult :=
  numbers.map fun n => .single (.scalar (.int n))

end EntityQuery.Sample
