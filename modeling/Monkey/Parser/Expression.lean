import Monkey.Parser.Statement
import Monkey.Text.Decimal

/-!
# Reading expressions

An operand starts at the current token and ends with its last token current; an operator rule
starts at the operator and ends with the last token of its right side current. An expression is
an operand and then, as long as the token behind it is an operator that binds tighter than the
limit, that operator applied to what was read so far. Equal precedence does not go on, so
operators of one precedence group to the left.
-/

namespace Monkey

open ParserM

variable {σ : Type} [TokenSource σ]

/-- Reads the current token as an integer; one that is out of range is recorded and counts as
zero. -/
def integerOperand : ParserM σ Expression := fun parser =>
  match Text.readInt64? parser.current.text.toList with
  | some value => .ok (.integer value parser.current.text) parser
  | none =>
    .ok (.integer 0 parser.current.text)
      (parser.record (.integerOutOfRange parser.current.text) parser.current.span.start)

namespace Routines

variable (routines : Routines σ)

/-- Reads an operand behind a unary operator. -/
def unary : ParserM σ Expression := do
  let operator ← current
  advance
  let right ← routines.expression .unary
  return .unary operator.text right

/-- Reads an expression in parentheses. -/
def grouping : ParserM σ Expression := do
  advance
  let inner ← routines.expression .lowest
  expect .closeParen
  return inner

/-- Reads the block behind `else`, if the token behind the current one is that word. -/
def alternative : ParserM σ (Option (List Statement)) := do
  if ← peekIs .elseWord then
    advance
    expect .openCurly
    return some (← routines.block)
  else
    return none

/-- Reads `if (condition) block`, with or without `else block`. -/
def conditional : ParserM σ Expression := do
  expect .openParen
  advance
  let condition ← routines.expression .lowest
  expect .closeParen
  expect .openCurly
  let consequence ← routines.block
  let alternative ← routines.alternative
  return .conditional condition consequence alternative

/-- Reads the parameters of a function, from the opening parenthesis to the closing one. -/
def parameterList : ParserM σ (List String) := do
  if ← peekIs .closeParen then
    advance
    return []
  else
    expect .identifier
    let first ← current
    let rest ← routines.parameters
    expect .closeParen
    return first.text :: rest

/-- One step of reading the further parameters of a function. -/
def parametersStep : ParserM σ (List String) := do
  if ← peekIs .comma then
    advance
    expect .identifier
    let name ← current
    let rest ← routines.parameters
    return name.text :: rest
  else
    return []

/-- Reads `fn(parameters) block`. -/
def function : ParserM σ Expression := do
  expect .openParen
  let parameters ← routines.parameterList
  expect .openCurly
  let body ← routines.block
  return .function parameters body

/-- Reads an operand by a rule. -/
def operandBy : OperandRule → ParserM σ Expression
  | .identifier => do return .identifier (← current).text
  | .integer => integerOperand
  | .boolean => do return .boolean ((← current).kind = .trueWord)
  | .unary => routines.unary
  | .grouping => routines.grouping
  | .conditional => routines.conditional
  | .function => routines.function

/-- Reads the right side of a binary operator. -/
def binary (left : Expression) (precedence : Precedence) : ParserM σ Expression := do
  let operator ← current
  advance
  let right ← routines.expression precedence
  return .binary left operator.text right

/-- Reads the arguments of a call, from the opening parenthesis to the closing one. -/
def argumentList : ParserM σ (List Expression) := do
  if ← peekIs .closeParen then
    advance
    return []
  else
    advance
    let first ← routines.expression .lowest
    let rest ← routines.arguments
    expect .closeParen
    return first :: rest

/-- One step of reading the further arguments of a call. -/
def argumentsStep : ParserM σ (List Expression) := do
  if ← peekIs .comma then
    advance
    advance
    let next ← routines.expression .lowest
    let rest ← routines.arguments
    return next :: rest
  else
    return []

/-- Reads the arguments of a call to what was read so far. -/
def call (callee : Expression) : ParserM σ Expression := do
  let arguments ← routines.argumentList
  return .call callee arguments

/-- Goes on behind an operand by a rule. -/
def operatorBy (left : Expression) (precedence : Precedence) :
    OperatorRule → ParserM σ Expression
  | .binary => routines.binary left precedence
  | .call => routines.call left

/-- Reads an operand and the operators behind it, without a level of nesting of its own. -/
def operation (limit : Precedence) : ParserM σ Expression := do
  let parser ← get
  announce (.expression parser.current.kind limit)
  match parser.tables.operand? parser.current.kind with
  | none => fail (.missingOperand parser.current.kind)
  | some rule =>
    let left ← routines.operandBy rule
    routines.operators limit left

/-- One step of reading an expression. -/
def expressionStep (limit : Precedence) : ParserM σ Expression :=
  nested (routines.operation limit)

/-- One step of going on behind an operand: nothing goes on in front of a semicolon. -/
def operatorsStep (limit : Precedence) (left : Expression) : ParserM σ Expression := do
  let parser ← get
  match parser.tables.operator? parser.peek.kind with
  | none => return left
  | some (precedence, rule) =>
    if parser.peek.kind ≠ .semicolon ∧ limit < precedence then
      advance
      let left ← routines.operatorBy left precedence rule
      routines.operators limit left
    else
      return left

end Routines

end Monkey
