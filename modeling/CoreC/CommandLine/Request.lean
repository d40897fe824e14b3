/-!
# What a command line asks for

Options are words that begin with a hyphen; `--` ends them, and a hyphen alone is no option. Options of one letter may be
joined behind one hyphen. The command comes first among the words that are no options, its file after it. The verbose
option may stand before the command or after it, the others belong to one of both places. Nothing may be left out, come
twice in its place, or be left over. Words are looked at from left to right, so that a request for help or for the version
is answered if nothing before it is wrong.
-/

namespace CoreC.CommandLine

/-- What can be done with a file. -/
inductive Command where
  /-- Check the program in the file, and list what it declares if asked to. -/
  | check (signatures : Bool)
  /-- Find the type of the expression in the file. -/
  | typeOf
  deriving DecidableEq, Repr

/-- A command for a file. -/
structure Invocation where
  command : Command
  path : String
  /-- Whether the log is shown. -/
  verbose : Bool := false
  deriving DecidableEq, Repr

/-- What a command line asks for. -/
inductive Request where
  | run (invocation : Invocation)
  | version
  | help
  | misuse
  deriving DecidableEq, Repr

/-- An option. -/
inductive Flag where
  | verbose
  | signatures
  | version
  | help
  deriving DecidableEq, Repr

/-- The option of a letter. -/
def Flag.ofLetter? : Char → Option Flag
  | 'v' => some .verbose
  | 'V' => some .version
  | 'h' => some .help
  | _ => none

/-- The option of a name. No option takes a value. -/
def Flag.ofName? (name : String) : Option Flag :=
  if name = "verbose" then some .verbose
  else if name = "signatures" then some .signatures
  else if name = "version" then some .version
  else if name = "help" then some .help
  else none

/-- One thing a command line says: an option, if there is such an option, or a word. -/
inductive Item where
  | option (flag : Option Flag)
  | word (text : String)
  /-- The end of the options, which matters only in front of a command. -/
  | separator
  deriving DecidableEq, Repr

/-- What one argument in front of the end of the options says. -/
def Item.ofArgument (argument : String) : List Item :=
  match argument.toList with
  | '-' :: '-' :: name => [.option (Flag.ofName? (String.ofList name))]
  | '-' :: letter :: letters => (letter :: letters).map fun c => .option (Flag.ofLetter? c)
  | _ => [.word argument]

/-- What the arguments of a command line say, in order. -/
def Item.ofArguments : List String → List Item
  | [] => []
  | argument :: rest =>
    if argument = "--" then .separator :: rest.map .word
    else Item.ofArgument argument ++ Item.ofArguments rest

/-- What has been said behind a command. -/
structure Given where
  verbose : Bool := false
  signatures : Bool := false
  path : Option String := none

/-- The name of a command. -/
inductive CommandName where
  | check
  | typeOf
  deriving DecidableEq, Repr

/-- The command a word names. -/
def CommandName.ofWord? (word : String) : Option CommandName :=
  if word = "check" then some .check
  else if word = "type-of" then some .typeOf
  else none

/-- What is asked for behind the name of a command. `outer` says whether the log was asked for before it. -/
def Request.ofCommand (outer : Bool) (name : CommandName) (given : Given) : List Item → Request
  | [] =>
    match given.path with
    | none => .misuse
    | some path =>
      let command := match name with
        | .check => .check given.signatures
        | .typeOf => .typeOf
      .run { command, path, verbose := outer || given.verbose }
  | .option (some .verbose) :: rest =>
    if given.verbose then .misuse else ofCommand outer name { given with verbose := true } rest
  | .option (some .signatures) :: rest =>
    if given.signatures || name ≠ .check then .misuse
    else ofCommand outer name { given with signatures := true } rest
  | .option (some .help) :: _ => .help
  | .option _ :: _ => .misuse
  | .separator :: rest => ofCommand outer name given rest
  | .word path :: rest =>
    if given.path.isSome || path.isEmpty then .misuse else ofCommand outer name { given with path := some path } rest

/-- What is asked for behind a request for help: nothing, or the name of a command. -/
def Request.ofHelp : List Item → Request
  | [] => .help
  | [.word word] => if (CommandName.ofWord? word).isSome || word = "help" then .help else .misuse
  | _ => .misuse

/-- What is asked for in front of a command; `verbose` says whether the log has been asked for. -/
def Request.ofItems (verbose : Bool) : List Item → Request
  | .option (some .verbose) :: rest => if verbose then .misuse else ofItems true rest
  | .option (some .version) :: _ => .version
  | .option (some .help) :: _ => .help
  | .word word :: rest =>
    match CommandName.ofWord? word with
    | some name => ofCommand verbose name {} rest
    | none => if word = "help" then ofHelp rest else .misuse
  | _ => .misuse

/-- What a command line asks for. -/
def Request.ofArguments (arguments : List String) : Request :=
  ofItems false (Item.ofArguments arguments)

end CoreC.CommandLine
