import EntityQuery.Sql.Dialect
import EntityQuery.Text.Split

/-!
# Arguments

What a user asks for on the command line: a query, or one of two other tasks, and options. Arguments
are read from left to right. An option is written with two dashes and its name or with one dash and
its letter; letters can be joined behind one dash. The value of an option is the rest of its argument,
or else the argument after it, which cannot start with a dash unless it is nothing else. Two dashes
alone end the options.

The first argument that asks for help or is wrong decides how the reading ends. A value in an argument
of its own is judged late, when the next option or operand comes up (`Pending`): a task comes before
it.
-/

namespace EntityQuery.Command

inductive Format where
  | table
  | json
  deriving Repr, DecidableEq

def Format.ofName? (name : String) : Option Format :=
  match name with
  | "table" => some .table
  | "json" => some .json
  | _ => none

inductive Task where
  | query (text : String)
  | explain (text : String)
  | entities
  deriving Repr, DecidableEq

structure Invocation where
  query : Option String := none
  /-- A task that is named, which goes before the query. -/
  task : Option Task := none
  mapping : Option String := none
  dialect : Option Sql.Dialect := none
  substitutions : List String := []
  bindings : List String := []
  filters : List String := []
  first : Option Nat := none
  max : Option Nat := none
  format : Option Format := none
  databaseUrl : Option String := none
  shallow : Bool := false
  dryRun : Bool := false
  verbose : Bool := false
  deriving Repr, DecidableEq

inductive Stop where
  /-- They ask for help or for the version. -/
  | help
  | misused
  deriving Repr, DecidableEq

def Stop.exitCode : Stop → Nat
  | .help => 0
  | .misused => 2

/-! ## Options -/

inductive Switch where
  | shallow
  | dryRun
  | verbose
  | help
  deriving Repr, DecidableEq

inductive Setting where
  | mapping
  | dialect
  | substitute
  | bind
  | filter
  | first
  | max
  | format
  | databaseUrl
  deriving Repr, DecidableEq

inductive Flag where
  | switch (switch : Switch)
  | setting (setting : Setting)
  deriving Repr, DecidableEq

def Flag.ofName? (name : String) : Option Flag :=
  match name with
  | "mapping" => some (.setting .mapping)
  | "dialect" => some (.setting .dialect)
  | "substitute" => some (.setting .substitute)
  | "bind" => some (.setting .bind)
  | "filter" => some (.setting .filter)
  | "first" => some (.setting .first)
  | "max" => some (.setting .max)
  | "format" => some (.setting .format)
  | "database-url" => some (.setting .databaseUrl)
  | "shallow" => some (.switch .shallow)
  | "dry-run" => some (.switch .dryRun)
  | "verbose" => some (.switch .verbose)
  | "help" | "version" => some (.switch .help)
  | _ => none

def Flag.ofLetter? (letter : Char) : Option Flag :=
  match letter with
  | 'm' => some (.setting .mapping)
  | 's' => some (.setting .substitute)
  | 'b' => some (.setting .bind)
  | 'f' => some (.setting .format)
  | 'd' => some (.switch .dryRun)
  | 'v' => some (.switch .verbose)
  | 'h' | 'V' => some (.switch .help)
  | _ => none

/-- One more than the largest number of rows that can be given. -/
def rowBound : Nat := Nat.pow 2 64

namespace Invocation

def wanted (invocation : Invocation) : Option Task :=
  invocation.task.or (invocation.query.map .query)

/-- A value that can be given only once. -/
def once {α : Type} (old new : Option α) : Except Stop (Option α) :=
  match old, new with
  | none, some value => .ok (some value)
  | _, _ => .error .misused

/-- The invocation with an option switched on, which can be done only once. -/
def turnOn (invocation : Invocation) : Switch → Except Stop Invocation
  | .shallow =>
    if invocation.shallow then .error .misused else .ok { invocation with shallow := true }
  | .dryRun =>
    if invocation.dryRun then .error .misused else .ok { invocation with dryRun := true }
  | .verbose =>
    if invocation.verbose then .error .misused else .ok { invocation with verbose := true }
  | .help => .error .help

/-- The invocation with the value of an option. Substitutions, bindings and filters add up. -/
def set (invocation : Invocation) (setting : Setting) (value : String) :
    Except Stop Invocation := do
  match setting with
  | .substitute => return { invocation with substitutions := invocation.substitutions ++ [value] }
  | .bind => return { invocation with bindings := invocation.bindings ++ [value] }
  | .filter => return { invocation with filters := invocation.filters ++ [value] }
  | .mapping =>
    return { invocation with
      mapping := ← once invocation.mapping (if value.isEmpty then none else some value) }
  | .dialect =>
    return { invocation with
      dialect := ← once invocation.dialect (Sql.Dialect.read value).toOption }
  | .first =>
    return { invocation with
      first := ← once invocation.first (readBelow? rowBound value.toList) }
  | .max =>
    return { invocation with max := ← once invocation.max (readBelow? rowBound value.toList) }
  | .format => return { invocation with format := ← once invocation.format (Format.ofName? value) }
  | .databaseUrl =>
    return { invocation with databaseUrl := ← once invocation.databaseUrl (some value) }

def addOperand (invocation : Invocation) (text : String) : Except Stop Invocation := do
  return { invocation with query := ← once invocation.query (some text) }

end Invocation

/-! ## One argument -/

inductive Argument where
  /-- Two dashes: only operands follow. -/
  | endOfOptions
  /-- An option by its name, with the text after an equals sign. -/
  | long (name : String) (value : Option String)
  | letters (letters : List Char)
  | operand (text : String)
  deriving Repr, DecidableEq

def Argument.ofText (text : String) : Argument :=
  match text.toList with
  | ['-', '-'] => .endOfOptions
  | '-' :: '-' :: rest =>
    match Text.splitFirst? '=' (String.ofList rest) with
    | some (name, value) => .long name (some value)
    | none => .long (String.ofList rest) none
  | '-' :: c :: rest => .letters (c :: rest)
  | _ => .operand text

/-- An option whose value is in an argument of its own: the value, if that argument has been read. -/
structure Pending where
  setting : Setting
  value : Option String := none
  deriving Repr, DecidableEq

namespace Invocation

/-- Follows options given by letters. The text after the letter of an option with a value is that
value; an equals sign between them does not count. -/
def addLetters (invocation : Invocation) : List Char → Except Stop (Invocation × Option Pending)
  | [] => .ok (invocation, none)
  | letter :: rest =>
    match Flag.ofLetter? letter with
    | none => .error .misused
    | some (.switch switch) => do
      (← invocation.turnOn switch).addLetters rest
    | some (.setting setting) =>
      match rest with
      | [] => .ok (invocation, some { setting })
      | '=' :: value => do return (← invocation.set setting (String.ofList value), none)
      | value => do return (← invocation.set setting (String.ofList value), none)

def addLong (invocation : Invocation) (name : String) (value : Option String) :
    Except Stop (Invocation × Option Pending) :=
  match Flag.ofName? name, value with
  | some (.switch switch), none => do return (← invocation.turnOn switch, none)
  | some (.setting setting), some value => do return (← invocation.set setting value, none)
  | some (.setting setting), none => .ok (invocation, some { setting })
  | _, _ => .error .misused

/-- The invocation with the value that is still to be judged. An option without one is misused. -/
def settle (invocation : Invocation) : Option Pending → Except Stop Invocation
  | none => .ok invocation
  | some ⟨setting, some value⟩ => invocation.set setting value
  | some ⟨_, none⟩ => .error .misused

/-! ## All arguments -/

def addOperands (invocation : Invocation) (operands : List String) : Except Stop Invocation :=
  operands.foldlM addOperand invocation

/-- The operands of a task, of which there can be at most so many. It has no options but help. -/
def taskOperands (most : Nat) : List String → Except Stop (List String)
  | [] => .ok []
  | argument :: rest =>
    match Argument.ofText argument, most with
    | .endOfOptions, _ => if rest.length ≤ most then .ok rest else .error .misused
    | .long "help" none, _ | .letters ('h' :: _), _ => .error .help
    | .operand text, left + 1 => do return text :: (← taskOperands left rest)
    | _, _ => .error .misused

/-- The task with a name and what is after it; nothing if it is not the name of a task. -/
def task? (name : String) (rest : List String) : Option (Except Stop Task) :=
  match name with
  | "explain" => some do
    match ← taskOperands 1 rest with
    | [query] => return .explain query
    | _ => .error .misused
  | "entities" => some do
    let _ ← taskOperands 0 rest
    return .entities
  | "help" =>
    match rest with
    | [] | ["explain"] | ["entities"] | ["help"] => some (.error .help)
    | _ => some (.error .misused)
  | _ => none

def addArguments (invocation : Invocation) (pending : Option Pending) :
    List String → Except Stop Invocation
  | [] => invocation.settle pending
  | argument :: rest =>
    match pending, Argument.ofText argument with
    | some ⟨setting, none⟩, .operand value => invocation.addArguments (some ⟨setting, some value⟩) rest
    | _, .endOfOptions => do (← invocation.settle pending).addOperands rest
    | _, .long name value => do
      let (next, pending) ← (← invocation.settle pending).addLong name value
      next.addArguments pending rest
    | _, .letters letters => do
      let (next, pending) ← (← invocation.settle pending).addLetters letters
      next.addArguments pending rest
    | _, .operand text =>
      match task? text rest with
      | some task => do
        let task ← task
        return { ← invocation.settle pending with task := some task }
      | none => do (← (← invocation.settle pending).addOperand text).addArguments none rest

def ofArguments (arguments : List String) : Except Stop Invocation :=
  addArguments {} none arguments

end Invocation

end EntityQuery.Command
