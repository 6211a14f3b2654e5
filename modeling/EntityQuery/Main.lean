import EntityQuery.Command.Run

/-!
# The command line

Reads files for `Command.run` and prints what came of it. No database can be opened from here, so a
query is shown rather than run; programs that have a connection run it through `PreparedQuery`.
-/

namespace EntityQuery

open Command

def systemReason : IO.Error → UInt32 × String
  | .noFileOrDirectory _ code details => (code, details)
  | .inappropriateType _ code details => (code, details)
  | .permissionDenied _ code details => (code, details)
  | other => (0, toString other)

/-- Numbers of reports that no file is there: a part of the path is missing or not a directory, or the
path leads to a directory. -/
def absentCodes : List UInt32 := [2, 20, 21]

def readHostFile (path : String) : IO File := do
  try
    return .text (← IO.FS.readFile path)
  catch error =>
    let (code, details) := systemReason error
    let reason := if code = 0 then details else s!"{details} (os error {code})"
    return if absentCodes.contains code then .absent reason else .unreadable reason

def findConfigHome : IO (Option String) := do
  match ← IO.getEnv "XDG_CONFIG_HOME" with
  | some path => if path.startsWith "/" then return some path else homeConfig
  | none => homeConfig
where
  homeConfig : IO (Option String) := do
    return (← IO.getEnv "HOME").map (· ++ "/.config")

def host : IO (Host IO) := do
  return {
    file := readHostFile
    configHome := ← findConfigHome
    databaseUrl := ← IO.getEnv "OQL_DATABASE_URL"
    connect := fun _ => .error "no driver for this database" }

end EntityQuery

open EntityQuery in
def main (arguments : List String) : IO UInt32 := do
  match ← Command.run (← host) arguments with
  | .error stop =>
    Command.usage.forM IO.println
    return stop.exitCode.toUInt32
  | .ok report =>
    report.console.lines.forM IO.println
    if let some failure := report.failure then
      IO.eprintln ("Error: " ++ failure.message)
    return report.exitCode.toUInt32
