import Monkey.Text.Quoted
import Monkey.Token.Basic

/-!
# Diagnostics

What can be wrong with a program, and where. A diagnostic is recorded while parsing goes on; it
has a cause and a place. The wording lives here: `name` is the sort of cause, `message` says what
happened, and `tip?` is what a report suggests.
-/

namespace Monkey

/-- What can be wrong with a program. -/
inductive Cause where
  /-- a token of one kind was needed where one of another kind stands -/
  | unexpectedToken (expected found : TokenKind)
  /-- an operand was needed where a token stands that starts none -/
  | missingOperand (found : TokenKind)
  /-- the text of an integer is not that of a 64-bit number -/
  | integerOutOfRange (literal : String)
  /-- an expression is nested too deeply -/
  | nestingTooDeep (limit : Nat)
  deriving DecidableEq

namespace Cause

/-- The name of a sort of cause. -/
def name : Cause → String
  | unexpectedToken _ _ => "UnexpectedToken"
  | missingOperand _ => "MissingPrefixHandler"
  | integerOutOfRange _ => "IntegerParseError"
  | nestingTooDeep _ => "NestingTooDeep"

/-- What happened, in one line. -/
def message : Cause → String
  | unexpectedToken expected found =>
    "expected token " ++ expected.name ++ " -- got " ++ found.name
  | missingOperand found => "no prefix parse function for " ++ found.name ++ " found"
  | integerOutOfRange literal => "could not parse " ++ Text.quoted literal ++ " as integer"
  | nestingTooDeep limit => "expression nested deeper than " ++ limit.repr ++ " levels"

/-- What a report suggests; nothing for a token that belongs to the language but starts no
operand. -/
def tip? : Cause → Option String
  | unexpectedToken expected found =>
    some ("Unexpected token: expected " ++ expected.name ++ ", got " ++ found.name)
  | missingOperand .illegal => some "This character is not part of the language"
  | missingOperand _ => none
  | integerOutOfRange literal =>
    some ("Invalid integer: `" ++ literal ++ "`, is it above the integer limit?")
  | nestingTooDeep limit =>
    some ("Expressions may nest at most " ++ limit.repr ++
      " levels, split this one with `let`")

end Cause

/-- Something wrong with a program, and the place it was noticed at. -/
structure Diagnostic where
  cause : Cause
  position : Position
  deriving DecidableEq

end Monkey
