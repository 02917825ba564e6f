import OnceProxy.Environment
import OnceProxy.Startup

/-!
# The program

Checks the settings in the environment of the process, and reports what keeps the proxy from
starting.
-/

namespace OnceProxy

/-- The environment of this process. -/
def readEnvironment : IO (List (String × String)) := do
  let s ← IO.FS.readBinFile "/proc/self/environ"
  return Environment.ofBytes s.toList

/-- Checks the settings. Shared records are taken to be within reach, unless the name of their host is
a foreign one. -/
def checkSettings : IO UInt32 := do
  match start (fun _ => none) (← readEnvironment) with
  | .ok _ => return 0
  | .error e =>
    (← IO.getStderr).putStr e.report
    return 1

end OnceProxy

/-- Runs the program. -/
def main : IO UInt32 :=
  OnceProxy.checkSettings
