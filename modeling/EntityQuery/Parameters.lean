import EntityQuery.Keyed
import EntityQuery.Value

/-!
# What is given with an execution

The values of the query's parameters, the part of the rows that is asked for, the lock to take on
them, and the filters that are switched on.
-/

namespace EntityQuery

inductive LockMode where
  | none
  | upgrade
  | upgradeNoWait
  deriving Repr, DecidableEq

/-- The part of the rows that is asked for: how many to leave out at the start, and how many to
give. -/
structure RowSelection where
  first : Option Nat := .none
  max : Option Nat := .none
  deriving Repr, DecidableEq

namespace RowSelection

def isEmpty (selection : RowSelection) : Bool :=
  selection.first.getD 0 == 0 && selection.max.isNone

def apply {α : Type} (selection : RowSelection) (rows : List α) : List α :=
  let rest := rows.drop (selection.first.getD 0)
  match selection.max with
  | some max => rest.take max
  | .none => rest

end RowSelection

/-- The values for one execution, each list sorted by its keys. -/
structure Parameters where
  named : List (String × ParameterValue) := []
  ordinal : List (Nat × ParameterValue) := []
  selection : RowSelection := {}
  lock : LockMode := .none
  deriving Repr, DecidableEq

namespace Parameters

def set (parameters : Parameters) (name : String) (value : ParameterValue) : Parameters :=
  { parameters with named := Keyed.insert name value parameters.named }

def setOrdinal (parameters : Parameters) (position : Nat) (value : ParameterValue) : Parameters :=
  { parameters with ordinal := Keyed.insert position value parameters.ordinal }

def names (parameters : Parameters) : List String :=
  parameters.named.map (·.1)

end Parameters

/-- The filters that are switched on, with the values of their parameters, sorted by name. -/
structure EnabledFilters where
  entries : List (String × List (String × Value)) := []
  deriving Repr, DecidableEq

namespace EnabledFilters

def enable (filters : EnabledFilters) (name : String) (values : List (String × Value)) :
    EnabledFilters :=
  ⟨Keyed.insert name values filters.entries⟩

def names (filters : EnabledFilters) : List String :=
  filters.entries.map (·.1)

def isEnabled (filters : EnabledFilters) (name : String) : Bool :=
  (filters.entries.lookup name).isSome

def value? (filters : EnabledFilters) (filter parameter : String) : Option Value :=
  (filters.entries.lookup filter).bind (·.lookup parameter)

end EnabledFilters

end EntityQuery
