import CallByNeed.Config

/-!
# Arguments

The arguments of the program name a subcommand and set options.  The options that change a limit
may stand before or after the subcommand, and one that stands after it wins.  They are read from
left to right, up to the first argument that asks for help or for the version, or that cannot be
read.

An option `--name` has its value in the same argument, behind an equals sign, or in the next
argument, unless that looks like an option itself.  Options of one letter can share an argument,
and a value can follow the letter directly.  Behind the argument `--` everything is a value.

A value in the same argument is checked at once.  One in the next argument is checked when reading
goes on behind it, and if a subcommand follows, only after the arguments of the subcommand: a
request for help among those comes first.
-/

namespace CallByNeed.CommandLine

/-- What the program is asked to do. -/
inductive Command where
  /-- List the tokens of a file. -/
  | tokens (file : String)
  /-- Print the canonical text of a file. -/
  | nodes (file : String)
  /-- Evaluate a file. -/
  | evalFile (file : String)
  /-- Evaluate an expression that is given as an argument. -/
  | evalText (source : String)
  /-- Evaluate what is typed. -/
  | repl
  /-- Print the completions of a shell. -/
  | completions (shell : String)
deriving DecidableEq, Repr

/-- Arguments that were understood. -/
structure Invocation where
  command : Command
  config : Config
deriving DecidableEq, Repr

/-- Why there is nothing to do. -/
inductive Refusal where
  /-- Help was asked for. -/
  | help
  /-- There are no arguments. -/
  | nothingAsked
  /-- The version was asked for. -/
  | version
  /-- The arguments cannot be understood. -/
  | misuse
deriving DecidableEq, Repr

/-- The subcommands. -/
inductive Subcommand where
  | tokens
  | nodes
  | eval
  | repl
  | completions
deriving DecidableEq, Repr

/-- The subcommand of the given name. -/
def Subcommand.ofName? : String → Option Subcommand
  | "tokens" => some tokens
  | "nodes" => some nodes
  | "eval" => some eval
  | "repl" => some repl
  | "completions" => some completions
  | _ => none

/-- The shells for which there are completions. -/
def shells : List String :=
  ["bash", "elvish", "fish", "powershell", "zsh"]

/-- The value is one that the subcommand takes. -/
def Subcommand.accepts : Subcommand → String → Bool
  | completions, value => shells.contains value
  | repl, _ => false
  | _, value => value ≠ ""

/-- The options with a value. -/
inductive ValueOption where
  | maxDepth
  | renderLimit
  | stackSize
  | expr
deriving DecidableEq, Repr

/-- What has been read of the arguments before the subcommand, or of those behind it. -/
structure Reading where
  /-- The subcommand that the arguments stand behind. -/
  sub : Option Subcommand
  maxDepth : Option Nat
  renderLimit : Option Nat
  /-- In units of `mebibyte`. -/
  stackSize : Option Nat
  expr : Option String
  value : Option String
  /-- Some option has been read. -/
  anyOption : Bool
  /-- The argument `--` has been read. -/
  valuesOnly : Bool
  /-- An option whose value has not been checked yet. -/
  pending : Option (ValueOption × String)
deriving DecidableEq, Repr

namespace Reading

/-- Nothing has been read yet. -/
def start (sub : Option Subcommand) : Reading :=
  ⟨sub, none, none, none, none, none, false, false, none⟩

/-- A machine word in decimal digits, with a plus sign in front or without. -/
def word? (s : String) : Option Nat :=
  let digits := match s.toList with
    | '+' :: digits => digits
    | digits => digits
  if digits.isEmpty || !digits.all Char.isDigit then none
  else
    let n := digits.foldl (fun n d => 10 * n + (d.toNat - '0'.toNat)) 0
    if n ≤ Config.maxWord then some n else none

/-- The option with a value that goes by the given long name. -/
def valueOption? (r : Reading) : String → Option ValueOption
  | "max-depth" => some .maxDepth
  | "render-limit" => some .renderLimit
  | "stack-size" => some .stackSize
  | "expr" => if r.sub = some .eval then some .expr else none
  | _ => none

/-- Sets an option.  An option can be set once before the subcommand and once behind it. -/
def set (r : Reading) (option : ValueOption) (value : String) : Except Refusal Reading :=
  let r := { r with anyOption := true }
  match option with
  | .maxDepth =>
    match r.maxDepth, word? value with
    | none, some n => .ok { r with maxDepth := some n }
    | _, _ => .error .misuse
  | .renderLimit =>
    match r.renderLimit, word? value with
    | none, some n => .ok { r with renderLimit := some n }
    | _, _ => .error .misuse
  | .stackSize =>
    match r.stackSize, word? value with
    | none, some n => .ok { r with stackSize := some n }
    | _, _ => .error .misuse
  | .expr => if r.expr.isSome then .error .misuse else .ok { r with expr := some value }

/-- Checks and sets the option that was left. -/
def settle (r : Reading) : Except Refusal Reading :=
  match r.pending with
  | none => .ok r
  | some (option, value) => { r with pending := none }.set option value

/-- The subcommand that an argument names, if one can stand here. -/
def enters? (r : Reading) (arg : String) : Option Subcommand :=
  if r.sub.isSome || r.valuesOnly then none else Subcommand.ofName? arg

/-- Takes an argument as a value. -/
def take (r : Reading) (value : String) : Except Refusal Reading :=
  match r.sub, r.value with
  | some sub, none =>
    if sub.accepts value then .ok { r with value := some value } else .error .misuse
  | _, _ => .error .misuse

end Reading

/-! ### Single arguments -/

/-- What an argument is by its looks. -/
inductive Shape where
  /-- The argument `--`. -/
  | separator
  /-- `--name` or `--name=value`. -/
  | long (name : String) (value : Option String)
  /-- Letters behind a single dash. -/
  | short (letters : List Char)
  | plain (value : String)
deriving DecidableEq, Repr

/-- The shape of an argument.  A single dash is a value. -/
def Shape.of (arg : String) : Shape :=
  match arg.toList with
  | ['-', '-'] => .separator
  | '-' :: '-' :: cs =>
    let name := String.ofList (cs.takeWhile (· ≠ '='))
    match cs.dropWhile (· ≠ '=') with
    | _ :: value => .long name (some (String.ofList value))
    | [] => .long name none
  | '-' :: c :: cs => .short (c :: cs)
  | _ => .plain arg

/-- What is to be done after an argument. -/
inductive Next where
  /-- Read on. -/
  | go (r : Reading)
  /-- The next argument is the value of an option. -/
  | await (r : Reading) (option : ValueOption)
  /-- The arguments behind a subcommand follow. -/
  | enter (sub : Subcommand)

/-- Reads the letters behind a single dash. -/
def readLetters (r : Reading) : List Char → Except Refusal Next
  | [] => .ok (.go r)
  | 'v' :: cs => readLetters { r with anyOption := true } cs
  | 'h' :: _ => .error .help
  | 'V' :: _ => .error (if r.sub = none then .version else .misuse)
  | 'e' :: cs =>
    if r.sub = some .eval then
      match cs with
      | [] => .ok (.await r .expr)
      | '=' :: value => (r.set .expr (String.ofList value)).map .go
      | value => (r.set .expr (String.ofList value)).map .go
    else .error .misuse
  | _ => .error .misuse

/-- Reads an option with a long name. -/
def readLong (r : Reading) (name : String) (value : Option String) : Except Refusal Next :=
  match r.valueOption? name, value with
  | some option, some value => (r.set option value).map .go
  | some option, none => .ok (.await r option)
  | none, some _ => .error .misuse
  | none, none =>
    match name with
    | "verbose" => .ok (.go { r with anyOption := true })
    | "help" => .error .help
    | "version" => .error (if r.sub = none then .version else .misuse)
    | _ => .error .misuse

/-- Reads one argument that names no subcommand. -/
def readArgument (r : Reading) (arg : String) : Except Refusal Next :=
  if r.valuesOnly then (r.take arg).map .go
  else
    match Shape.of arg with
    | .separator => .ok (.go { r with valuesOnly := true })
    | .long name value => readLong r name value
    | .short letters => readLetters r letters
    | .plain value => (r.take value).map .go

/-- Reads one argument. -/
def readOne (r : Reading) (arg : String) : Except Refusal Next :=
  match r.enters? arg with
  | some sub => .ok (.enter sub)
  | none =>
    match r.settle with
    | .ok r => readArgument r arg
    | .error refusal => .error refusal

/-! ### All arguments -/

/-- What the arguments behind the subcommand ask for. -/
def Reading.command? (r : Reading) : Option Command :=
  match r.sub, r.value, r.expr with
  | some .tokens, some file, _ => some (.tokens file)
  | some .nodes, some file, _ => some (.nodes file)
  | some .eval, some file, none => some (.evalFile file)
  | some .eval, none, some source => some (.evalText source)
  | some .repl, none, _ => some .repl
  | some .completions, some shell, _ => some (.completions shell)
  | _, _, _ => none

/-- The unit of the option for the stack, `2 ^ 20` bytes. -/
def mebibyte : Nat :=
  1048576

/-- The limits that the options ask for, those of `inner` before those of `outer`. -/
def configOf (outer inner : Reading) : Config :=
  let config : Config := {}
  let maxDepth := (inner.maxDepth.or outer.maxDepth).getD config.maxDepth
  let renderLimit := (inner.renderLimit.or outer.renderLimit).getD config.renderLimit
  let stackSize := (inner.stackSize.or outer.stackSize).map (Config.saturatingMul · mebibyte)
  { config with maxDepth, renderLimit, stackSize }

/-- What the arguments ask for once all have been read; `outer` is what was read before the
subcommand. -/
def conclude (outer : Option Reading) (r : Reading) : Except Refusal Invocation := do
  let r ← r.settle
  match outer with
  | none => throw (if r.anyOption then .misuse else .nothingAsked)
  | some outer =>
    match r.command? with
    | some command => return ⟨command, configOf (← outer.settle) r⟩
    | none => throw .misuse

/-- Reads arguments; `outer` is what was read before the subcommand. -/
def readAll (outer : Option Reading) (r : Reading) : List String → Except Refusal Invocation
  | [] => conclude outer r
  | arg :: args =>
    match readOne r arg with
    | .error refusal => .error refusal
    | .ok (.go r) => readAll outer r args
    | .ok (.enter sub) => readAll (some r) (.start sub) args
    | .ok (.await r option) =>
      match args with
      | [] => .error .misuse
      | value :: args =>
        match Shape.of value with
        | .plain value => readAll outer { r with pending := some (option, value) } args
        | _ => .error .misuse

/-- What the arguments of the program ask for. -/
def parseArguments (args : List String) : Except Refusal Invocation :=
  readAll none (.start none) args

end CallByNeed.CommandLine
