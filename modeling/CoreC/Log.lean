import CoreC.Dump

/-!
# The log

What the checker reports while it works, as data: the events in their order. An event has a level, by which a reader of
the log may leave it out (`Log.atLevel`), and a message. The levels and messages are the lines of the log (`Log.lines`).
-/

namespace CoreC

/-- How closely a log follows the checker. The steps of the whole check are for debugging; the single entries, declarations
and expressions are traced only. -/
inductive Level where
  | debug
  | trace
  deriving DecidableEq, Repr

/-- The label of a level. -/
def Level.label : Level → String
  | .debug => "DEBUG"
  | .trace => "TRACE"

/-- Whether a log of this level holds the events of another. -/
def Level.includes : Level → Level → Bool
  | .trace, _ => true
  | .debug, level => level = .debug

/-- What the checker reports. -/
inductive Event where
  /-- A structure was entered into its table. -/
  | structRegistered (name : StructName) (fields : Nat)
  /-- A function was entered into its table. -/
  | funRegistered (name : FunName) (params : Nat)
  /-- Both tables are complete. -/
  | collected (structs funs : Nat)
  /-- The body of a function is about to be checked. -/
  | checking (name : FunName) (returnType : Ty)
  /-- A variable was declared. -/
  | declared (name : VarName) (ty : Ty)
  /-- An expression was given its type. -/
  | typed (e : Expr) (ty : Ty)

/-- The level of an event. -/
def Event.level : Event → Level
  | .collected _ _ => .debug
  | .checking _ _ => .debug
  | _ => .trace

/-- The message of an event. An expression that was given a type is written out; in its names some characters may be hidden
(`Expr.dump`). -/
def Event.message (hidden : Char → Bool) : Event → String
  | .structRegistered name fields => s!"Registered structure {name} with {fields} fields"
  | .funRegistered name params => s!"Registered function {name} with {params} parameters"
  | .collected structs funs => s!"Collected {structs} structures and {funs} functions"
  | .checking name returnType => s!"Checking function {name} -> {returnType}"
  | .declared name ty => s!"Declared {name}: {ty}"
  | .typed e ty => e.dump hidden ++ " : " ++ ty.display

/-- A log: events in the order in which they happened. -/
abbrev Log := List Event

/-- The events of a log that a level includes. -/
def Log.atLevel (log : Log) (level : Level) : Log :=
  log.filter (level.includes ·.level)

/-- A log as it is read: the levels and messages of its events. -/
def Log.lines (hidden : Char → Bool) (log : Log) : List (Level × String) :=
  log.map fun event => (event.level, event.message hidden)

end CoreC
