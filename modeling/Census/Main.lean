import Census.CommandLine.Commands

/-!
# The program

Runs commands on the machine. Reports go to the standard output, failures to the standard error
output.
-/

namespace Census.Machine

/-- Whether an action comes to an end without an error. -/
def succeeds (action : IO Unit) : IO Bool := do
  try
    action
    return true
  catch _ => return false

/-- Seconds with two decimal places, given milliseconds. -/
def secondsText (milliseconds : Nat) : String :=
  let hundredths := (milliseconds + 5) / 10
  let places := hundredths % 100
  toString (hundredths / 100) ++ "." ++ (if places < 10 then "0" else "") ++ toString places

instance : Host IO where
  workingDirectory := return Path.ofText (← IO.currentDir).toString
  isThere path := succeeds do
    let _ ← IO.FS.realPath path.text
  read? path := do
    try
      return some (← IO.FS.readBinFile path.text)
    catch _ => return none
  write path bytes := succeeds (IO.FS.writeBinFile path.text bytes)
  makeDirectories path := do
    if path = .empty then return true
    succeeds (IO.FS.createDirAll path.text)
  say text := do
    IO.print text
    (← IO.getStdout).flush
  clock := IO.monoMsNow
  elapsedSince start := return secondsText ((← IO.monoMsNow) - start)

/-- What is said on the standard error output at the end of a run. -/
def lastWords : Outcome → String
  | .success => ""
  | .failed failure => s!"Error: {failure.message}\n"
  | .misused => "error: the arguments make no sense\n\n" ++ usage

end Census.Machine

/-- Runs the command line. -/
def main (arguments : List String) : IO UInt32 := do
  let outcome ← Census.runArguments arguments
  IO.eprint (Census.Machine.lastWords outcome)
  return outcome.exitCode.toUInt32
