import CoreC.CommandLine.Report

/-!
# The program

Reads the command line and the file, and prints the answer.
-/

namespace CoreC.CommandLine

/-- Why a file cannot be read, as it is reported. A file of the wrong kind is a directory where a file was meant, or a
file where a directory was meant. -/
def reason : IO.Error → String
  | .noFileOrDirectory .. => "No such file or directory (os error 2)"
  | .permissionDenied .. => "Permission denied (os error 13)"
  | .inappropriateType _ 21 _ => "Is a directory (os error 21)"
  | .inappropriateType .. => "Not a directory (os error 20)"
  | e => toString e

/-- The text of a file, or why it cannot be read. -/
def contents (path : String) : IO (Except String String) := do
  match ← (IO.FS.readBinFile path).toBaseIO with
  | .error e => return .error (reason e)
  | .ok bytes =>
    match String.fromUTF8? bytes with
    | some text => return .ok text
    | none => return .error "stream did not contain valid UTF-8"

/-- What is wrong with a text that is refused. -/
def refusal (_ : String) : String :=
  "the text is not in the interchange form"

/-- Print an answer; its code is the result. -/
def Report.print (report : Report) : IO UInt32 := do
  IO.eprint report.stderr
  IO.print report.stdout
  return report.code.toUInt32

end CoreC.CommandLine

open CoreC.CommandLine in
/-- Answer a command line. -/
def main (arguments : List String) : IO UInt32 := do
  match Request.ofArguments arguments with
  | .run invocation => (invocation.report refusal (← contents invocation.path)).print
  | .version => Report.version.print
  | .help => Report.help.print
  | .misuse => Report.misuse.print
