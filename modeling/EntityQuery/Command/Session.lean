import EntityQuery.Command.Pair
import EntityQuery.Database.Connection
import EntityQuery.Model.File
import EntityQuery.Settings

/-!
# Sessions

What a command works with: the mapping model, the dialect, the substitutions and the database. It is put
together from a settings file and from the arguments, which come before the settings.

The files are the only thing that has to be asked for step by step, since the settings file names the
mapping file. So the functions here work over any monad in which a file can be read.
-/

namespace EntityQuery.Command

inductive File where
  | text (content : String)
  | unreadable (reason : String)
  /-- No file, and what reading it would report. -/
  | absent (reason : String)
  deriving Repr, DecidableEq

def File.content : File → Except Error String
  | .text content => .ok content
  | .unreadable reason | .absent reason => .error (.file reason)

structure Host (m : Type → Type) where
  file : String → m File
  configHome : Option String
  databaseUrl : Option String
  connect : String → Except String Connection

structure Session where
  model : Metamodel
  dialect : Sql.Dialect
  substitutions : List (String × String)
  databaseUrl : Option String
  deriving Repr, DecidableEq

/-- Where settings are looked for, the nearest place first. -/
def settingsPaths (configHome : Option String) : List String :=
  "oql.toml" :: (configHome.map (· ++ "/oql/config.toml")).toList

/-- The directory that a file is in, with the slash after it. -/
def directory (path : String) : String :=
  String.ofList (path.toList.reverse.dropWhile (· != '/')).reverse

/-- A path as it is meant in a file: relative to the directory of that file, unless it is absolute. -/
def resolve (file path : String) : String :=
  if path.toList.head? = some '/' then path else directory file ++ path

def settingsOf (path : String) (file : File) : Except Failure Settings :=
  match file.content.bind Settings.ofFile with
  | .ok settings => .ok { settings with mapping := settings.mapping.map (resolve path) }
  | .error error => .error (.error error)

def modelOf (path : String) (file : File) : Except Failure Metamodel :=
  match file.content.bind Metamodel.ofFile with
  | .ok model => .ok model
  | .error error => .error (.loading path error)

def Session.merge (settings : Settings) (invocation : Invocation) (databaseUrl : Option String)
    (model : Metamodel) : Except Failure Session := do
  let url := (invocation.databaseUrl.or databaseUrl).or settings.databaseUrl
  let given ← invocation.substitutions.mapM pair
  return {
    model
    dialect := invocation.dialect.getD { settings with databaseUrl := url }.resolvedDialect
    substitutions := Keyed.ofList (settings.substitutions ++ given)
    databaseUrl := url }

namespace Host

variable {m : Type → Type} [Monad m]

/-- The settings in the first of the paths that leads to a file. -/
def settingsAmong (host : Host m) : List String → m (Except Failure Settings)
  | [] => return .ok {}
  | path :: rest => do
    match ← host.file path with
    | .absent _ => host.settingsAmong rest
    | file => return settingsOf path file

def load (host : Host m) (invocation : Invocation) : m (Except Failure Session) := do
  match ← host.settingsAmong (settingsPaths host.configHome) with
  | .error failure => return .error failure
  | .ok settings =>
    match invocation.mapping.or settings.mapping with
    | none => return .error .noMapping
    | some path =>
      let file ← host.file path
      return (modelOf path file).bind (Session.merge settings invocation host.databaseUrl)

end Host

end EntityQuery.Command
