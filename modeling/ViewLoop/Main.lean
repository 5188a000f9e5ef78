import ViewLoop.Apps.SignIn

/-!
# The command line

Takes the tour of the sign-in site. The file of settings is named by the variable `MVU_CONFIG`;
without it, the defaults hold.
-/

namespace ViewLoop

def readFailure : IO.Error → ReadFailure
  | .inappropriateType .. => .isDirectory
  | .resourceExhausted .. => .nameTooLong
  | _ => .notFound

def readFile (path : String) : IO (Except ReadFailure String) := do
  try
    return .ok (← IO.FS.readFile path)
  catch e =>
    return .error (readFailure e)

/-- The settings that the environment asks for. -/
def readSettings : IO (Except Settings.Error Settings) := do
  match ← IO.getEnv "MVU_CONFIG" with
  | none => return .ok {}
  | some path => return Settings.ofFile path (← readFile path)

end ViewLoop

/-- Takes the tour and prints its report; the exit code tells whether it came to its end. -/
def main : IO UInt32 := do
  let report := ViewLoop.SignIn.tour (← ViewLoop.readSettings)
  for text in report.printed do
    IO.println text
  match report.failure with
  | none => return 0
  | some failure =>
    IO.eprintln failure.message
    return 1
