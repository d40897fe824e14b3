/-!
# Texts that do not steer a terminal

A text may hold control characters and control sequences, which a terminal obeys instead of showing them. `Terminal.plain`
leaves them out. An escape character begins a sequence; what comes behind it decides what kind of sequence it is, and the
kind decides where it ends. A sequence that does not end takes the rest of the text with it.

Tabs, line feeds, form feeds and carriage returns are layout and no control characters. They are kept, and they interrupt
a sequence unless it is one of those that hold a string: what comes behind them is shown, up to the next control
character, and there the sequence goes on. A character beyond ASCII that is shown ends the interrupted sequence.
-/

namespace CoreC.Terminal

/-- Where in a sequence a text stands. -/
inductive State where
  /-- In no sequence. -/
  | text
  /-- Behind an escape character. -/
  | escape
  /-- In a sequence of an escape character, marks and a last character. -/
  | marked
  /-- In a control sequence, which has parameters and marks in front of its last character. -/
  | control
  /-- At the start of a device string. -/
  | device
  /-- In the parameters of a device string. -/
  | deviceParams
  /-- In the marks of a device string. -/
  | deviceMarks
  /-- In a string that runs up to the string terminator. -/
  | string
  /-- In a string that runs up to a bell. -/
  | command
  deriving DecidableEq, Repr

/-- The control characters that lay out a text. -/
def isLayout (c : Char) : Bool :=
  c = '\t' || c = '\n' || c = '\x0c' || c = '\r'

/-- Whether a character is shown where it stands. Outside of sequences that is every character but the control characters
of ASCII. -/
def State.shows : State → Char → Bool
  | .text, c => isLayout c || (' ' ≤ c && c ≠ '\x7f')
  | .escape, c => isLayout c
  | .marked, c => isLayout c
  | .control, c => isLayout c
  | _, _ => false

/-- A character between two others, both included. -/
def within (first last c : Char) : Bool :=
  first ≤ c && c ≤ last

/-- The string terminator is a byte, and a character that has it in its encoding ends a string. -/
def endsString (c : Char) : Bool :=
  (String.utf8EncodeChar c).contains 0x9c

/-- The state behind a character that is not shown. -/
def State.next (s : State) (c : Char) : State :=
  if c = '\x1b' then .escape
  else if c = '\x18' || c = '\x1a' then .text
  else
    match s with
    | .text => .text
    | .escape =>
      if within ' ' '/' c then .marked
      else if c = '[' then .control
      else if c = ']' then .command
      else if c = 'P' then .device
      else if c = 'X' || c = '^' || c = '_' then .string
      else if within '0' '~' c then .text
      else .escape
    | .marked => if within '0' '~' c then .text else .marked
    | .control => if within '@' '~' c then .text else .control
    | .device =>
      if within ' ' '/' c then .deviceMarks
      else if within '0' '?' c then .deviceParams
      else if within '@' '~' c then .string
      else .device
    | .deviceParams =>
      if within ' ' '/' c then .deviceMarks
      else if within '<' '~' c then .string
      else .deviceParams
    | .deviceMarks => if within '0' '~' c then .string else .deviceMarks
    | .string => if endsString c then .text else .string
    | .command => if c = '\x07' then .text else .command

/-- The characters of a text that are shown, from a state on. While characters are being shown they are judged as outside
of sequences, and the state is that of the sequence they interrupt. -/
def State.shown (s : State) (showing : Bool) : List Char → List Char
  | [] => []
  | c :: rest =>
    if (if showing then State.text else s).shows c then
      c :: shown (if c ≤ '\x7f' then s else .text) true rest
    else
      shown (s.next c) false rest

/-- A text without what a terminal would obey. -/
def plain (text : String) : String :=
  String.ofList (State.text.shown true text.toList)

end CoreC.Terminal
