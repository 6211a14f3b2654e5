import EntityQuery.Command.Failure
import EntityQuery.Command.Invocation

/-!
# Values in arguments

Substitutions, parameters and filters are given as pairs of a name and a value. A value that reads as a
number is one; `true`, `false` and `null` are what they say, and all else is text.
-/

namespace EntityQuery.Command

/-- The name and the text of a pair, parted by the first equals sign. -/
def pair (text : String) : Except Failure (String × String) :=
  match Text.splitFirst? '=' text with
  | some parts => .ok parts
  | none => .error (.notPair text)

def readValue (text : String) : Value :=
  match readInt64? text.toList, Double.read? text.toList, text with
  | some n, _, _ => .int n
  | none, some x, _ => .double x
  | none, none, "true" => .bool true
  | none, none, "false" => .bool false
  | none, none, "null" => .null
  | none, none, other => .string other

def inBrackets? (text : String) : Option String :=
  match text.toList with
  | '[' :: rest => if rest.getLast? = some ']' then some (String.ofList rest.dropLast) else none
  | _ => none

/-- The value of a parameter: a list between brackets, where blanks around items and empty items do not
count, or one value. -/
def readParameter (text : String) : ParameterValue :=
  match inBrackets? text with
  | some inner =>
    let parts := (Text.splitAll ',' inner).map fun part => String.ofList (Text.trim part.toList)
    .list ((parts.filter (!·.isEmpty)).map readValue)
  | none => .single (readValue text)

/-- One more than the largest number of a parameter. -/
def ordinalBound : Nat := Nat.pow 2 32

/-- The parameters with one more. A name that reads as a number is the number of a parameter. -/
def addParameter (parameters : Parameters) (text : String) : Except Failure Parameters := do
  let (name, written) ← pair text
  match readBelow? ordinalBound name.toList with
  | some position => return parameters.setOrdinal position (readParameter written)
  | none => return parameters.set name (readParameter written)

/-- A filter with its values: `name`, or `name:parameter=value,...`. -/
def readFilter (text : String) : Except Failure (String × List (String × Value)) := do
  let (name, values) := (Text.splitFirst? ':' text).getD (text, "")
  let pairs ← ((Text.splitAll ',' values).filter (!·.isEmpty)).mapM pair
  return (name, Keyed.ofList (pairs.map fun (parameter, written) => (parameter, readValue written)))

namespace Invocation

def parameters (invocation : Invocation) : Except Failure Parameters := do
  let given ← invocation.bindings.foldlM addParameter {}
  return { given with selection := ⟨invocation.first, invocation.max⟩ }

def enabledFilters (invocation : Invocation) : Except Failure EnabledFilters :=
  invocation.filters.foldlM
    (fun filters text => do
      let (name, values) ← readFilter text
      return filters.enable name values) {}

end Invocation

end EntityQuery.Command
