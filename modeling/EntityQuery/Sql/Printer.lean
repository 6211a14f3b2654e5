import EntityQuery.Query.Printer
import EntityQuery.Sql.Dialect
import EntityQuery.Sql.Statement

/-!
# SQL text

How terms and statements are written in a dialect. No parentheses are added around terms; those of
the query are nodes of the tree.
-/

namespace EntityQuery.Sql

open Template (text join)

def ColumnRef.text (ref : ColumnRef) : String :=
  match ref.qualifier with
  | some qualifier => qualifier ++ "." ++ ref.column
  | none => ref.column

def literalText (dialect : Dialect) : Query.Literal → String
  | .null => "null"
  | .bool value => dialect.boolLiteral value
  | .int value => toString value
  | .double value => DecimalStyle.sql.text value
  | .string value => Query.quoted value

def KeyLookup.text (lookup : KeyLookup) : String :=
  "exists (select 1 from " ++ lookup.table ++ " " ++ lookup.tableAlias ++ " where "
    ++ lookup.tableAlias ++ "." ++ lookup.keyColumn ++ " = " ++ lookup.owner.text ++ ")"

def nullTests (columns : List ColumnRef) (negated : Bool) : String :=
  let test := " is " ++ Query.notText negated ++ "null"
  let between := if negated then " or " else " and "
  "(" ++ between.intercalate (columns.map fun ref => ref.text ++ test) ++ ")"

/-- Templates joined as texts in a dialect. -/
def concatenated (dialect : Dialect) (parts : List Template) : Template :=
  let form := dialect.concatenation
  text form.before ++ join form.between parts ++ text form.after

mutual
def Term.template (dialect : Dialect) : Term → Template
  | .literal value => text (literalText dialect value)
  | .column ref => text ref.text
  | .slot parameter => Template.slot parameter
  | .group inner => text "(" ++ inner.template dialect ++ text ")"
  | .negate inner => text "-" ++ inner.template dialect
  | .not inner => text "not " ++ inner.template dialect
  | .logical op left right =>
    left.template dialect ++ text (" " ++ op.text ++ " ") ++ right.template dialect
  | .compare op left right =>
    left.template dialect ++ text (" " ++ op.text ++ " ") ++ right.template dialect
  | .arithmetic op left right =>
    left.template dialect ++ text (" " ++ op.text ++ " ") ++ right.template dialect
  | .concat parts => concatenated dialect (Term.templates dialect parts)
  | .like subject pattern none negated =>
    subject.template dialect ++ text (" " ++ Query.notText negated ++ "like ")
      ++ pattern.template dialect
  | .like subject pattern (some escape) negated =>
    subject.template dialect ++ text (" " ++ Query.notText negated ++ "like ")
      ++ pattern.template dialect ++ text " escape " ++ escape.template dialect
  | .inList subject items negated =>
    subject.template dialect ++ text (" " ++ Query.notText negated ++ "in (")
      ++ join ", " (Term.templates dialect items) ++ text ")"
  | .between subject low high negated =>
    subject.template dialect ++ text (" " ++ Query.notText negated ++ "between ")
      ++ low.template dialect ++ text " and " ++ high.template dialect
  | .isNull subject negated =>
    subject.template dialect ++ text (" is " ++ Query.notText negated ++ "null")
  | .areNull columns negated => text (nullTests columns negated)
  | .noneFound lookup negated => text (Query.notText (!negated) ++ lookup.text)
  | .call function arguments =>
    text (function ++ "(") ++ join ", " (Term.templates dialect arguments) ++ text ")"
  | .aggregate function _ none => text (function.text ++ "(*)")
  | .aggregate function distinct (some argument) =>
    text (function.text ++ "(" ++ if distinct then "distinct " else "")
      ++ argument.template dialect ++ text ")"

def Term.templates (dialect : Dialect) : List Term → List Template
  | [] => []
  | term :: rest => term.template dialect :: Term.templates dialect rest
end

def Condition.template (dialect : Dialect) : Condition → Template
  | .term written => written.template dialect
  | .filter condition => condition

def joinKeyword : Query.JoinKind → String
  | .inner => " inner join "
  | .left => " left outer join "

def JoinedTable.template (dialect : Dialect) (joined : JoinedTable) : Template :=
  text (joinKeyword joined.kind ++ joined.table ++ " " ++ joined.tableAlias ++ " on "
      ++ joined.left.text ++ " = " ++ joined.right.text)
    ++ join "" (joined.conditions.map fun condition => text " and " ++ condition.template dialect)

def TableRange.template (dialect : Dialect) (range : TableRange) : Template :=
  text (range.table ++ Query.optionText " " id range.tableAlias)
    ++ join "" (range.joins.map (JoinedTable.template dialect))

def SelectColumn.template (dialect : Dialect) (column : SelectColumn) : Template :=
  column.term.template dialect ++ text (" as " ++ column.label)

/-- The restriction of the rows: the condition and the filters, all of which have to hold. -/
def Select.restriction (dialect : Dialect) (select : Select) : Option Template :=
  match select.condition, select.filters with
  | none, [] => none
  | some condition, [] => some (condition.template dialect)
  | none, filters => some (join " and " filters)
  | some condition, filters =>
    some (text "(" ++ condition.template dialect ++ text ") and " ++ join " and " filters)

def clause (intro : String) : Option Template → Template
  | some template => text intro ++ template
  | none => {}

/-- A clause that is a list; left out when the list is empty. -/
def listClause (intro : String) : List Template → Template
  | [] => {}
  | templates => text intro ++ join ", " templates

def orderTemplate (dialect : Dialect) (item : Term × Bool) : Template :=
  item.1.template dialect ++ text (if item.2 then " desc" else "")

def Select.template (dialect : Dialect) (select : Select) : Template :=
  text (if select.distinct then "select distinct " else "select ")
    ++ join ", " (select.columns.map (SelectColumn.template dialect))
    ++ text " from " ++ join ", " (select.ranges.map (TableRange.template dialect))
    ++ clause " where " (select.restriction dialect)
    ++ listClause " group by " (select.groupBy.map (Term.template dialect))
    ++ clause " having " (select.having.map (Term.template dialect))
    ++ listClause " order by " (select.orderBy.map (orderTemplate dialect))

def whereClause (dialect : Dialect) (condition : Option Term) : Template :=
  clause " where " (condition.map (Term.template dialect))

def Update.template (dialect : Dialect) (update : Update) : Template :=
  text ("update " ++ update.table ++ " set ")
    ++ join ", " (update.assignments.map fun (column, value) =>
      text (column.text ++ " = ") ++ value.template dialect)
    ++ whereClause dialect update.condition

def Unlink.template (dialect : Dialect) (unlink : Unlink) : Template :=
  text ("delete from " ++ unlink.linkTable ++ " where " ++ unlink.keyColumn ++ " in (select "
      ++ unlink.identifier ++ " from " ++ unlink.table)
    ++ whereClause dialect unlink.condition ++ text ")"

def Delete.template (dialect : Dialect) (delete : Delete) : Template :=
  text ("delete from " ++ delete.table) ++ whereClause dialect delete.condition

def Statement.template (dialect : Dialect) : Statement → Template
  | .select statement => statement.template dialect
  | .update statement => statement.template dialect
  | .unlink statement => statement.template dialect
  | .delete statement => statement.template dialect

end EntityQuery.Sql
