import EntityQuery.Error

/-!
# Failed commands

Why a command stops, and how that is told: what failed comes first and each cause follows after a
colon. An error that quotes its cause is followed by the cause again.
-/

namespace EntityQuery

/-- The cause of an error, where it has one that stands on its own. -/
def Error.cause? : Error → Option String
  | .execution (.statement _ cause) => some cause
  | .file reason => some reason
  | _ => none

def Error.trail (error : Error) : String :=
  match error.cause? with
  | some cause => error.message ++ ": " ++ cause
  | none => error.message

namespace Command

inductive Failure where
  | noMapping
  | noEntities
  /-- A text that should be a name, an equals sign and a value. -/
  | notPair (text : String)
  | loading (path : String) (cause : Error)
  | connecting (url reason : String)
  | error (error : Error)
  deriving Repr, DecidableEq

def Failure.message : Failure → String
  | .noMapping => "no mapping model; use --mapping or set `mapping` in oql.toml"
  | .noEntities => "the mapping model has no entities"
  | .notPair text => s!"expected name=value, got '{text}'"
  | .loading path cause => s!"loading mapping {path}: " ++ cause.trail
  | .connecting url reason => s!"connecting to {url}: " ++ reason
  | .error reason => reason.trail

end Command

end EntityQuery
