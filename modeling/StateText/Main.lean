import StateText.Command

/-!
# The program

Reads the files that a command line names, runs the command on what they hold and writes the
outcome. Two texts are left out: what a command line that is not carried out is told, of which only
the exit code and the version are left, and what is said about a fault in a settings document behind
the name of the file.
-/

namespace StateText.Main

open Command

def versionText : String := "statefmt 0.3.1"

def readError : IO.Error → ReadError
  | .noFileOrDirectory _ _ _ => .notFound
  | .inappropriateType _ code _ => if code = 21 then .isDirectory else .notDirectory
  | .invalidArgument (some _) 36 _ => .nameTooLong
  | e => .other (toString e)

def readFile (path : String) : IO (Except ReadError String) := do
  try
    return .ok (← IO.FS.readFile path)
  catch e =>
    return .error (readError e)

def paths (env : Environment) (args : Arguments) : List String :=
  (settingsFile env args).toList ++
    match args.action with
    | .show state schemas _ => [state, schemas]
    | .output state _ => [state]

/-- The environment of this process, with nothing read so far. -/
def environment : IO Environment := do
  let home ← IO.getEnv "HOME"
  let directory ← IO.getEnv "XDG_CONFIG_HOME"
  let noColor ← IO.getEnv "NO_COLOR"
  let terminal ← (← IO.getStdout).isTty
  return {
    read := fun _ => .error .notFound
    settingsPath := ← IO.getEnv "STATEFMT_CONFIG"
    settingsDirectory := directory.orElse fun _ => home.map fun h => h ++ "/.config"
    terminal := terminal && noColor.isNone }

def runArguments (args : Arguments) : IO UInt32 := do
  let env ← environment
  let files ← (paths env args).mapM fun path => return (path, ← readFile path)
  let read (path : String) := (Entries.get? path files).getD (.error .notFound)
  let outcome := run { env with read } args
  (← IO.getStderr).putStr (outcome.stderr fun _ => "")
  (← IO.getStdout).putStr outcome.stdout
  return UInt32.ofNat outcome.exitCode

end StateText.Main

open StateText StateText.Main in
def main (args : List String) : IO UInt32 := do
  match Command.Arguments.parse args with
  | .ok args => runArguments args
  | .error e =>
    if e = .version then IO.println versionText
    return UInt32.ofNat e.exitCode
