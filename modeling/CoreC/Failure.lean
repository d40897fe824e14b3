import CoreC.TypeError

/-!
# Failures

What a tool that works on texts and files reports when it has no answer.
-/

namespace CoreC

/-- Why there is no answer. -/
inductive Failure where
  /-- The program is at fault: the kind of the fault and its message. -/
  | typeError (kind message : String)
  /-- The text is not in the interchange form. -/
  | malformed (message : String)
  /-- The file could not be read. -/
  | unreadable (path reason : String)
  deriving DecidableEq, Repr

namespace Failure

/-- The failure a fault of a program is. -/
def ofTypeError (e : TypeError) : Failure :=
  .typeError e.kind e.message

/-- What happened, without a word on the kind of failure it is. -/
def message : Failure → String
  | typeError _ message => message
  | malformed message => message
  | unreadable path reason => s!"failed to read {path}: {reason}"

/-- The text of a failure. -/
def text (failure : Failure) : String :=
  match failure with
  | typeError kind message => s!"Type error ({kind}): {message}"
  | malformed message => s!"Malformed input: {message}"
  | unreadable _ _ => "IO error: " ++ failure.message

end Failure

end CoreC
