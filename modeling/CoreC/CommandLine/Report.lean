import CoreC.CommandLine.Request
import CoreC.Source
import CoreC.Terminal

/-!
# What a command line answers

The answer to a request, as data: an exit code and the texts of the two outputs. Reading the file is left to the caller,
who hands over its text or why it cannot be read. The caller also says what is wrong with a text that is refused (`reason`).
-/

namespace CoreC

/-- The fields of a structure as they are listed. -/
def StructTable.listing (table : StructTable) : String :=
  String.join <| table.toList.map fun (name, fields) =>
    let fields := String.join (fields.map fun d => s!" {d.ty} {d.name};")
    "struct " ++ name.text ++ " \x7b" ++ fields ++ " \x7d\n"

/-- The signatures of functions as they are listed. -/
def FunTable.listing (table : FunTable) : String :=
  String.join <| table.toList.map fun (name, signature) =>
    let params := ", ".intercalate (signature.params.map Ty.display)
    s!"{signature.returnType} {name}({params})\n"

/-- Everything a program declares, one declaration a line: the structures, then the functions, each in the order of
their names. -/
def Globals.listing (g : Globals) : String :=
  g.structs.listing ++ g.funs.listing

namespace CommandLine

/-- What a command line answers. -/
structure Report where
  code : Nat
  stdout : String := ""
  stderr : String := ""
  deriving DecidableEq, Repr

/-- A line of the log as it is shown: the lines of a message behind its first one are indented, and nothing in it steers
a terminal. -/
def logLine (source : String) (level : Level) (message : String) : String :=
  let label := level.label
  let message := "\n    ".intercalate (message.splitOn "\n")
  Terminal.plain s!"[{label} {source}] {message}\n"

/-- The log of a check as it is shown, without what is only traced. -/
def shownLog (log : Log) : String :=
  -- expressions are only traced, so it does not matter how they are written
  let lines := (log.atLevel .debug).lines fun _ => false
  String.join (lines.map fun (level, message) => logLine "minic_frontend::semantic" level message)

/-- The answer when there is none. -/
def Report.ofFailure (failure : Failure) : Report :=
  match failure with
  | .unreadable _ _ => { code := 1, stderr := "Error: " ++ failure.message ++ "\n" }
  | _ => { code := 1, stderr := failure.text ++ "\n" }

/-- The answer to the check of a program. -/
def Report.ofCheck (reason : String → String) (invocation : Invocation) (signatures : Bool) (text : String) : Report :=
  let (log, result) := Source.checkProgram reason text
  let shown := if invocation.verbose then shownLog log else ""
  match result with
  | .error failure =>
    let report := Report.ofFailure failure
    { report with stderr := shown ++ report.stderr }
  | .ok globals =>
    let last := if invocation.verbose then logLine "minic" .debug (invocation.path ++ " is well-typed") else ""
    { code := 0, stdout := "ok\n" ++ (if signatures then globals.listing else ""), stderr := shown ++ last }

/-- The answer to a command, given what its file holds or why it cannot be read. -/
def Invocation.report (reason : String → String) (invocation : Invocation) (contents : Except String String) : Report :=
  match contents with
  | .error cause => Report.ofFailure (.unreadable invocation.path cause)
  | .ok text =>
    match invocation.command with
    | .check signatures => Report.ofCheck reason invocation signatures text
    | .typeOf =>
      match Source.typeOfExpr reason text with
      | .ok ty => { code := 0, stdout := ty.display ++ "\n" }
      | .error failure => Report.ofFailure failure

/-- How the program is used. -/
def usage : String :=
  "Usage: minic [-v|--verbose] check <file> [--signatures]\n       minic [-v|--verbose] type-of <file>\n"

/-- The answer to the request for the version. -/
def Report.version : Report :=
  { code := 0, stdout := "minic 0.1.0\n" }

/-- The answer to the request for help. -/
def Report.help : Report :=
  { code := 0, stdout := usage }

/-- The answer to a command line that asks for nothing that there is. -/
def Report.misuse : Report :=
  { code := 2, stderr := usage }

end CommandLine

end CoreC
