import Monkey.Parser.Expression

/-!
# Loops and their rounds

Statements, operators, parameters and arguments are read in loops. A loop is a test of the parser, a
round if the test says so, and the loop again with what the round came out with. What one step of
each loop does is written here in that form.
-/

namespace Monkey

open ParserM

variable {σ α : Type} [TokenSource σ]

/-! ## Tests -/

namespace ParserM

/-- Goes on with the statements of a region unless that is over. -/
def unlessOver (region : Region) (next : ParserM σ (List Statement)) :
    ParserM σ (List Statement) := do
  if region.endsAt (← current).kind then
    return []
  else
    next

/-- Goes on by the rule for the current token as the start of a statement, if there is one. -/
def byStatement (next : Option StatementRule → ParserM σ Statement) : ParserM σ Statement := do
  let parser ← get
  announce (.statement parser.current.kind)
  next (parser.tables.statement? parser.current.kind)

/-- Goes on with what is behind the current token if that is a comma. -/
def ifComma (next : ParserM σ (List α)) : ParserM σ (List α) := do
  if ← peekIs .comma then
    next
  else
    return []

/-- Goes on by the rule for the current token as an operand. -/
def byOperand (limit : Precedence) (next : OperandRule → ParserM σ Expression) :
    ParserM σ Expression := do
  let parser ← get
  announce (.expression parser.current.kind limit)
  match parser.tables.operand? parser.current.kind with
  | none => fail (.missingOperand parser.current.kind)
  | some rule => next rule

/-- Goes on by the rule for the token behind the current one as an operator, if that binds tighter
than the limit. -/
def byOperator (limit : Precedence) (left : Expression)
    (next : Precedence → OperatorRule → ParserM σ Expression) : ParserM σ Expression := do
  let parser ← get
  match parser.tables.operator? parser.peek.kind with
  | none => return left
  | some (precedence, rule) =>
    if parser.peek.kind ≠ .semicolon ∧ limit < precedence then
      next precedence rule
    else
      return left

end ParserM

/-! ## Rounds -/

namespace Routines

variable (r : Routines σ)

/-- Reads a statement, or passes one that fails, and moves on behind it. -/
def statementRound : ParserM σ (Option Statement) := do
  let statement ← attempt r.statement
  advance
  return statement

/-- Moves on to an operator and goes on by its rule. -/
def operatorRound (left : Expression) (precedence : Precedence) (rule : OperatorRule) :
    ParserM σ Expression := do
  advance
  r.operatorBy left precedence rule

/-- Reads a parameter behind a comma. -/
def parameterRound : ParserM σ String := do
  advance
  expect .identifier
  return (← current).text

/-- Reads an argument behind a comma. -/
def argumentRound : ParserM σ Expression := do
  advance
  advance
  r.expression .lowest

theorem statementStep_eq :
    r.statementStep = byStatement fun rule? => rule?.elim r.expressionStatement r.statementBy := by
  unfold statementStep byStatement
  congr 1
  funext parser
  cases parser.tables.statement? parser.current.kind <;> rfl

theorem operation_eq (limit : Precedence) :
    r.operation limit = byOperand limit fun rule => r.operandBy rule >>= r.operators limit :=
  rfl

theorem statementsStep_eq (region : Region) :
    r.statementsStep region = unlessOver region (do
      let statement ← r.statementRound
      let rest ← r.statements region
      return statement.toList ++ rest) := by
  simp only [statementsStep, unlessOver, statementRound, bind_assoc, pure_bind]

theorem operatorsStep_eq (limit : Precedence) (left : Expression) :
    r.operatorsStep limit left = byOperator limit left fun precedence rule =>
      r.operatorRound left precedence rule >>= r.operators limit :=
  rfl

theorem parametersStep_eq :
    r.parametersStep = ifComma (do
      let name ← parameterRound
      let rest ← r.parameters
      return name :: rest) := by
  simp only [parametersStep, ifComma, parameterRound, bind_assoc, pure_bind]

theorem argumentsStep_eq :
    r.argumentsStep = ifComma (do
      let first ← r.argumentRound
      let rest ← r.arguments
      return first :: rest) :=
  rfl

end Routines

end Monkey
