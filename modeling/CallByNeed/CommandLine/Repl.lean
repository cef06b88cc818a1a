import CallByNeed.Program
import CallByNeed.Text.Blank

/-!
# The prompt loop

Lines are collected until they make a program.  A line that leaves the program incomplete is
answered by another prompt, and a blank line gives up waiting: then the program is run as it is.
Blank lines in front of a program are skipped.
-/

namespace CallByNeed.CommandLine

/-- The state of the prompt loop. -/
structure Repl where
  config : Config
  /-- The lines collected so far, each with its newline. -/
  input : String

namespace Repl

/-- No line has been collected. -/
def start (config : Config) : Repl :=
  ⟨config, ""⟩

/-- What is printed before a line is read. -/
def prompt (r : Repl) : String :=
  if r.input = "" then "> " else "| "

/-- Takes a line, without its newline, and answers with what is printed. -/
def feed (r : Repl) (line : String) : String × Repl :=
  let isBlank := Text.isBlankText line
  if r.input = "" && isBlank then ("", r)
  else
    let input := r.input ++ line ++ "\n"
    match Program.run r.config input with
    | .ok text => (text ++ "\n", { r with input := "" })
    | .error err =>
      if err.isIncomplete && !isBlank then ("", { r with input })
      else (err.report "<repl>" input, { r with input := "" })

/-- All that is printed while the given lines are read, the prompt at the end of the input
included.  What has been collected by then is dropped. -/
def transcript (r : Repl) : List String → String
  | [] => r.prompt
  | line :: lines =>
    let (answer, next) := r.feed line
    r.prompt ++ answer ++ next.transcript lines

end Repl

end CallByNeed.CommandLine
