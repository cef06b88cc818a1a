import CallByNeed.CommandLine.Arguments
import CallByNeed.CommandLine.FileSystem
import CallByNeed.CommandLine.Repl

/-!
# The command line

What the program prints, and the code it exits with, as a function of its arguments, of the file
they name and of its input.  Errors in a source are reported on the error output, where the report
is all that is printed; the exit code is then `1`, as it is for arguments that cannot be
understood.
-/

namespace CallByNeed.CommandLine

/-- What a run of the program shows. -/
structure Outcome where
  exit : Nat
  stdout : String
  stderr : String
deriving DecidableEq, Repr

namespace Outcome

/-- Success with the given output. -/
def success (stdout : String) : Outcome :=
  ⟨0, stdout, ""⟩

/-- Failure with the given message. -/
def failure (stderr : String) : Outcome :=
  ⟨1, "", stderr⟩

end Outcome

/-- The version that the program prints. -/
def versionText : String :=
  "fun 0.1.0\n"

/-- The help that the program prints. -/
def helpText : String :=
  "Usage: fun [OPTIONS] <COMMAND>\n\nCommands:\n  tokens <file>\n  nodes <file>\n" ++
  "  eval [-e <expr>] [file]\n  repl\n  completions <shell>\n\nOptions:\n  -v, --verbose\n" ++
  "      --max-depth <max-depth>\n      --render-limit <render-limit>\n" ++
  "      --stack-size <stack-size>\n  -h, --help\n  -V, --version\n"

/-- What is shown when there is nothing to do. -/
def Refusal.outcome : Refusal → Outcome
  | help => .success helpText
  | nothingAsked => ⟨0, "", helpText⟩
  | version => .success versionText
  | misuse => .failure helpText

/-- The file that a command reads. -/
def Command.file? : Command → Option String
  | tokens file | nodes file | evalFile file => some file
  | _ => none

/-- The listing of a source's tokens, one in a line with its place. -/
def listing (name source : String) : List (Except LexError (Located Token)) → Outcome
  | [] => .success ""
  | .error err :: _ => .failure ((Error.parse (.lexical err)).report name source)
  | .ok t :: results =>
    if t.value = .eof then .success ""
    else
      let rest := listing name source results
      let line := name ++ ":" ++ t.span.text ++ ": " ++ t.value.listing ++ "\n"
      { rest with stdout := line ++ rest.stdout }

/-- Prints the canonical text of a source. -/
def printNodes (name source : String) : Outcome :=
  match Expr.parse source with
  | .ok e => .success (e.text ++ "\n")
  | .error err => .failure ((Error.parse err).report name source)

/-- Prints the value of a source. -/
def printValue (config : Config) (name source : String) : Outcome :=
  match Program.run config source with
  | .ok text => .success (text ++ "\n")
  | .error err => .failure (err.report name source)

/-- Runs `f` on a file's text, if it could be read. -/
def onFile (contents : Except ReadError String) (f : String → Outcome) : Outcome :=
  match contents with
  | .ok source => f source
  | .error err => .failure (err.message ++ "\n")

/-- The completions of a shell: the subcommands, one in a line. -/
def completionText : String :=
  "tokens\nnodes\neval\nrepl\ncompletions\n"

/-- Carries out a command; `contents` is the text of the file it reads, and `stdin` the program's
input. -/
def Invocation.outcome (i : Invocation) (contents : Except ReadError String) (stdin : String) :
    Outcome :=
  match i.command with
  | .tokens file =>
    onFile contents fun source => listing file source (Layout.ofString source).results
  | .nodes file => onFile contents (printNodes file)
  | .evalFile file => onFile contents (printValue i.config file)
  | .evalText source => printValue i.config "<expr>" source
  | .repl => .success ((Repl.start i.config).transcript (Text.lines stdin))
  | .completions _ => .success completionText

/-- What a run of the program shows in a file system. -/
def runIn (fs : FileSystem) (args : List String) (stdin : String) : Outcome :=
  match parseArguments args with
  | .error refusal => refusal.outcome
  | .ok invocation =>
    let contents := match invocation.command.file? with
      | some file => fs.read file
      | none => .ok ""
    invocation.outcome contents stdin

/-- What a run of the program shows in a directory that holds the given files. -/
def run (files : List (String × ByteArray)) (args : List String) (stdin : String) : Outcome :=
  runIn (.fresh files stdin) args stdin

end CallByNeed.CommandLine
