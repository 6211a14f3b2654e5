import EntityQuery.Query.Grammar

/-!
# Errors

Each error is a cause with the data that belongs to it; the wording is in the `message` functions.
Errors come from the query text (`QueryFault`), from the mapping model (`MappingFault`), from the
values given with an execution (`BindingFault`) and from the database (`ExecutionFault`).
-/

namespace EntityQuery

/-- What a query asks for that cannot be done. -/
inductive Misuse where
  | aliasTaken (name : String)
  | unresolvedPath (path : List String)
  | implicitJoinInBulk (path : List String)
  | collectionDereference (path : List String)
  | scalarDereference (path : List String)
  | emptyJoinPath
  | joinNotFromEntity (path : List String)
  | componentParameter (parameter component : String)
  | componentInExpression (path : List String)
  | notCollection (expression : String)
  | unknownFunction (name : String)
  | oneArgument (function : String)
  | someArguments (function : String)
  | aggregateOfAll (function : Query.AggregateFunction)
  | fetchWithoutOwner
  | notAssignable (path : List String)
  | noStatement
  deriving Repr, DecidableEq

def Misuse.message : Misuse → String
  | .aliasTaken name => s!"alias '{name}' is already defined"
  | .unresolvedPath path => "Could not resolve path '" ++ Query.pathText path ++ "'"
  | .implicitJoinInBulk path =>
    "implicit join not allowed in bulk manipulation [" ++ Query.pathText path ++ "]"
  | .collectionDereference path =>
    "illegal attempt to dereference collection [" ++ Query.pathText path ++ "]"
  | .scalarDereference path =>
    "cannot dereference scalar property [" ++ Query.pathText path ++ "]"
  | .emptyJoinPath => "empty join path"
  | .joinNotFromEntity path =>
    "join path [" ++ Query.pathText path ++ "] does not start at an entity"
  | .componentParameter parameter component =>
    s!"component-valued parameter {parameter} for '{component}' is not supported"
  | .componentInExpression path =>
    "component [" ++ Query.pathText path ++ "] cannot be used in an expression"
  | .notCollection expression => s!"{expression} is not a collection"
  | .unknownFunction name => s!"Unknown function '{name}'"
  | .oneArgument function => s!"function {function}() expects one argument"
  | .someArguments function => s!"function {function}() expects at least one argument"
  | .aggregateOfAll function => function.text ++ "(*) is not supported"
  | .fetchWithoutOwner =>
    "query specified join fetching, but the owner of the fetched association was not present in "
      ++ "the select list"
  | .notAssignable path =>
    "only basic properties and many-to-one references can be assigned ["
      ++ Query.pathText path ++ "]"
  | .noStatement => "no statement to execute"

inductive StatementKind where
  | select
  | update
  | delete
  deriving Repr, DecidableEq

def StatementKind.text : StatementKind → String
  | .select => "select"
  | .update => "update"
  | .delete => "delete"

inductive Operation where
  | list
  | iterate
  | scroll
  | executeUpdate
  deriving Repr, DecidableEq

def Operation.text : Operation → String
  | .list => "list"
  | .iterate => "iterate"
  | .scroll => "scroll"
  | .executeUpdate => "execute_update"

/-- A query that cannot be read or compiled, or that is used in a way it does not allow. -/
inductive QueryFault where
  | malformed (fault : Query.SyntaxFault)
  | unknownMark (name query : String)
  /-- A parameter `?` without a number. -/
  | legacyParameter (query : String)
  | undetermined (expression : String)
  /-- A misuse, and the query or the part of it at fault. -/
  | misuse (misuse : Misuse) (place : String)
  | fetchWithCursor
  | wrongMode (operation : Operation) (kind : StatementKind) (query : String)
  | notCompiled (query : String)
  deriving Repr, DecidableEq

def Query.SyntaxFault.message : Query.SyntaxFault → String
  | .trailing position excerpt =>
    s!"Parse error at position {position}: Unexpected trailing content: '{excerpt}'"
  | .unexpected position excerpt =>
    s!"Parse error at position {position}: Unexpected input near '{excerpt}'"

def QueryFault.message : QueryFault → String
  | .malformed fault => fault.message
  | .unknownMark name query =>
    "Unknown substitution placeholder '\x7b" ++ name ++ "\x7d' in query [" ++ query ++ "]"
  | .legacyParameter query =>
    "Legacy-style query parameters (`?`) are no longer supported; use JPA-style ordinal "
      ++ "parameters (e.g., `?1`) instead : " ++ query
  | .undetermined expression => "Could not determine type of: " ++ expression
  | .misuse reason place => reason.message ++ " [" ++ place ++ "]"
  | .fetchWithCursor => "fetch may not be used with scroll() or iterate()"
  | .wrongMode operation kind query =>
    operation.text ++ "() is not supported for " ++ kind.text ++ " statements: " ++ query
  | .notCompiled query => "Query has not been compiled: " ++ query

inductive MappingDefect where
  | duplicateProperty (property : String)
  | unknownTarget (property target : String)
  | emptyComponent (property : String)
  | undeclaredParameter (filter parameter : String)
  | unknownType (name : String)
  | missingKey (property key : String)
  deriving Repr, DecidableEq

def MappingDefect.message : MappingDefect → String
  | .duplicateProperty property => s!"duplicate property '{property}'"
  | .unknownTarget property target =>
    s!"association '{property}' targets unknown entity '{target}'"
  | .emptyComponent property => s!"component '{property}' has no fields"
  | .undeclaredParameter filter parameter =>
    s!"filter '{filter}' uses undeclared parameter '{parameter}'"
  | .unknownType name => s!"unknown type '{name}'"
  | .missingKey property key => s!"property '{property}' is missing '{key}'"

/-- A name that the mapping model does not resolve, or a mapping that cannot be used. -/
inductive MappingFault where
  | unknownEntity (entity : String)
  | unknownProperty (entity property : String)
  | notAssociation (entity property : String)
  | defect (entity : String) (defect : MappingDefect)
  deriving Repr, DecidableEq

def MappingFault.message : MappingFault → String
  | .unknownEntity entity => s!"Unknown entity: '{entity}'"
  | .unknownProperty entity property =>
    s!"Could not resolve property '{property}' of entity '{entity}'"
  | .notAssociation entity property =>
    s!"Property '{property}' of entity '{entity}' is not an association"
  | .defect entity reason => s!"Invalid mapping for '{entity}': " ++ reason.message

/-- Values that do not fit the parameters of a query. A parameter is shown as it is written in the
query, `:name` or `?1`. -/
inductive BindingFault where
  | unknownNamed (name : String)
  | unknownOrdinal (position : Nat) (query : String)
  | missingNamed (name query : String)
  | missingOrdinal (position : Nat) (query : String)
  | unexpectedList (parameter : String)
  | emptyList (parameter : String)
  | typeMismatch (parameter expected actual : String)
  | missingFilterParameter (filter parameter : String)
  deriving Repr, DecidableEq

def BindingFault.message : BindingFault → String
  | .unknownNamed name => "Named parameter does not appear in Query: " ++ name
  | .unknownOrdinal position query =>
    s!"Ordinal parameter [?{position}] does not appear in Query [{query}]"
  | .missingNamed name query =>
    s!"No value bound for named parameter [:{name}] in Query [{query}]"
  | .missingOrdinal position query =>
    s!"Ordinal parameter [?{position}] does not appear in the supplied parameters "
      ++ s!"for Query [{query}]"
  | .unexpectedList parameter =>
    s!"Parameter [{parameter}] is bound to a list but is not used in an in-list position"
  | .emptyList parameter => s!"Parameter list for [{parameter}] must not be empty"
  | .typeMismatch parameter expected actual =>
    s!"Parameter [{parameter}] expects a value of type {expected}, got {actual}"
  | .missingFilterParameter filter parameter =>
    s!"Filter parameter [{filter}.{parameter}] has no value"

inductive ConversionFault where
  | notTimestamp (text : String)
  | outOfRange (seconds : Int)
  deriving Repr, DecidableEq

def ConversionFault.message : ConversionFault → String
  | .notTimestamp text => s!"'{text}' is not a timestamp"
  | .outOfRange seconds => s!"{seconds} is out of range"

/-- A failure of the database, or a row that does not fit the plan. -/
inductive ExecutionFault where
  | statement (sql cause : String)
  | unreadable (column : String)
  | inconvertible (column : String) (fault : ConversionFault)
  deriving Repr, DecidableEq

def ExecutionFault.message : ExecutionFault → String
  | .statement sql cause => s!"Execution error in [{sql}]: " ++ cause
  | .unreadable column => s!"Could not read column '{column}'"
  | .inconvertible column fault => s!"Could not convert column '{column}': " ++ fault.message

inductive ConfigFault where
  | mappingFile
  | settings
  deriving Repr, DecidableEq

def ConfigFault.message : ConfigFault → String
  | .mappingFile => "invalid mapping file"
  | .settings => "invalid settings"

inductive Error where
  | query (fault : QueryFault)
  | mapping (fault : MappingFault)
  | binding (fault : BindingFault)
  | execution (fault : ExecutionFault)
  | config (fault : ConfigFault)
  | file (reason : String)
  deriving Repr, DecidableEq

def Error.message : Error → String
  | .query fault => fault.message
  | .mapping fault => fault.message
  | .binding fault => fault.message
  | .execution fault => fault.message
  | .config fault => "Configuration error: " ++ fault.message
  | .file reason => "IO error: " ++ reason

end EntityQuery
