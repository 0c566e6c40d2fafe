import Monkey.Diagnostic.Basic
import Monkey.Parser.Precedence

/-!
# The log of a parse

A parser announces what it does: the start and end of a program, every statement, block and
expression it turns to, and every diagnostic it records. An event has a level and named fields of
text, one of which is its message.
-/

namespace Monkey

/-- How much attention a log entry asks for. -/
inductive LogLevel where
  | debug
  | trace
  deriving DecidableEq

/-- The name of a level. -/
def LogLevel.name : LogLevel → String
  | debug => "DEBUG"
  | trace => "TRACE"

/-- What a parser announces. -/
inductive Event where
  /-- a statement starts with a token of the kind -/
  | statement (kind : TokenKind)
  /-- a block starts -/
  | block
  /-- an expression starts with a token of the kind and takes operators above the precedence -/
  | expression (kind : TokenKind) (limit : Precedence)
  /-- something is wrong with the program -/
  | recorded (diagnostic : Diagnostic)
  /-- a program has been read -/
  | parsed (statements diagnostics : Nat)
  deriving DecidableEq

namespace Event

/-- The level of an event. -/
def level : Event → LogLevel
  | statement _ => .trace
  | block => .trace
  | expression _ _ => .trace
  | recorded _ => .debug
  | parsed _ _ => .debug

/-- The message of an event. -/
def message : Event → String
  | statement _ => "parse_stmt"
  | block => "parse_block_stmt"
  | expression _ _ => "parse_expr"
  | recorded _ => "recorded parse diagnostic"
  | parsed _ _ => "parsed program"

/-- The fields of an event, beside its message. -/
def details : Event → List (String × String)
  | statement kind => [("kind", kind.name)]
  | block => []
  | expression kind limit => [("kind", kind.name), ("precedence", limit.name)]
  | recorded diagnostic =>
    [("error", diagnostic.cause.message), ("position", diagnostic.position.offset.toNat.repr)]
  | parsed statements diagnostics =>
    [("statements", statements.repr), ("errors", diagnostics.repr)]

/-- All fields of an event. -/
def fields (event : Event) : List (String × String) :=
  ("message", event.message) :: event.details

end Event

/-- An entry of the log: an event, or a mark of the stretch in which a program is read. -/
inductive LogEntry where
  | opened (level : LogLevel) (name : String)
  | entered
  | left
  | event (event : Event)
  deriving DecidableEq

/-- The mark of the stretch in which a program is read. -/
def LogEntry.openedProgram : LogEntry :=
  .opened .debug "parse_program"

end Monkey
