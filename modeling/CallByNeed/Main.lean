import CallByNeed.CommandLine

/-!
# The program

The outer layer: it gets the arguments, reads the file that they name, and prints.  The prompt loop
prints as it reads, one line at a time.
-/

namespace CallByNeed.CommandLine

/-- The error with a number of the operating system. -/
def ReadError.ofNumber (n : UInt32) : ReadError :=
  if n = 13 then permissionDenied
  else if n = 20 then notADirectory
  else if n = 21 then isADirectory
  else if n = 36 then nameTooLong
  else notFound

/-- Why a file could not be opened or read. -/
def ReadError.ofIOError : IO.Error → ReadError
  | .noFileOrDirectory _ n _ | .invalidArgument _ n _ | .permissionDenied _ n _
  | .resourceExhausted _ n _ | .inappropriateType _ n _ => .ofNumber n
  | _ => .notFound

/-- Reads the file that a command needs. -/
def readContents (command : Command) : IO (Except ReadError String) := do
  match command.file? with
  | none => return .ok ""
  | some file =>
    try
      return decodeText (← IO.FS.readBinFile file)
    catch err =>
      return .error (.ofIOError err)

/-- Runs the prompt loop until the input ends. -/
partial def replLoop (r : Repl) : IO Unit := do
  let stdout ← IO.getStdout
  stdout.putStr r.prompt
  stdout.flush
  let line ← (← IO.getStdin).getLine
  match Text.lines line with
  | [] => return
  | line :: _ =>
    let (answer, r) := r.feed line
    stdout.putStr answer
    replLoop r

/-- Prints what a run shows and yields its exit code. -/
def Outcome.print (o : Outcome) : IO UInt32 := do
  IO.print o.stdout
  IO.eprint o.stderr
  return o.exit.toUInt32

/-- Does what the arguments ask for and yields the exit code. -/
def runMain (args : List String) : IO UInt32 := do
  match parseArguments args with
  | .error refusal => refusal.outcome.print
  | .ok invocation =>
    if invocation.command = .repl then
      replLoop (.start invocation.config)
      return 0
    else
      let contents ← readContents invocation.command
      (invocation.outcome contents "").print

end CallByNeed.CommandLine

def main (args : List String) : IO UInt32 :=
  CallByNeed.CommandLine.runMain args
