import PageLoom.Command.Run
import Std.Time.DateTime.Timestamp

/-!
# The program

    The outer layer: it reads the command line, the clock and the inputs,
    runs the command and prints what it gives.
-/

namespace PageLoom

/-- How the program is called. -/
def usage : String :=
  "usage: codesite render -s SITE [-r REQUEST] [--fragment] [--force]\n"
    ++ "       codesite resolve -s SITE [-r REQUEST]\n"
    ++ "       codesite scope INPUT -p PREFIX [--minify]\n"
    ++ "       codesite minify INPUT\n"

/-- The time of day. -/
def clock : IO Instant := do
  let nanos := (← Std.Time.Timestamp.now).toNanosecondsSinceUnixEpoch.val
  return ⟨nanos / 1000000000, (nanos % 1000000000).toNat⟩

/-- The text of an input, if it can be read. -/
def readInput (input : Input) : IO (Option String) := do
  try
    match input with
    | .file path => return some (← IO.FS.readFile path)
    | .standardInput => return some (← (← IO.getStdin).readToEnd)
  catch _ => return none

end PageLoom

open PageLoom in
/-- Runs the command of a command line; exits with 2 if there is none and with
    1 if it fails. -/
def main (words : List String) : IO UInt32 := do
  match Command.ofWords? words with
  | none =>
      IO.eprint usage
      return 2
  | some command =>
      let texts ← command.inputs.mapM fun input => return (input, ← readInput input)
      match command.run (fun input => (texts.lookup input).join) (← clock) with
      | .ok output =>
          IO.print output
          return 0
      | .error failure =>
          IO.eprintln ("error: " ++ failure.message)
          return 1
