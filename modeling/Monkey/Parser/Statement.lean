import Monkey.Parser.Routines

/-!
# Reading statements

A statement starts at the current token and ends with its last token current. The semicolon
behind a statement is part of it and is taken also when its value could not be read, so that it
is not left for the next statement.
-/

namespace Monkey

open ParserM

variable {σ : Type} [TokenSource σ]

/-- Whether a statement may end in front of a kind without a semicolon. -/
def Options.mayEndBefore (options : Options) (kind : TokenKind) : Bool :=
  !options.strictSemicolons || kind = .closeCurly || kind = .endOfInput

/-- Ends a statement with its semicolon, and hands its value back. -/
def finishStatement (value : Option Expression) : ParserM σ Expression := do
  if ← peekIs .semicolon then
    advance
    ofOption value
  else
    let value ← ofOption value
    let parser ← get
    if parser.options.mayEndBefore parser.peek.kind then
      return value
    else
      expect .semicolon
      return value

namespace Routines

variable (routines : Routines σ)

/-- Reads the value of a statement and its semicolon. -/
def statementValue : ParserM σ Expression := do
  finishStatement (← attempt (routines.expression .lowest))

/-- Reads `let name = value;` from its first word on. -/
def letBinding : ParserM σ Statement := do
  expect .identifier
  let name ← current
  expect .assign
  advance
  let value ← routines.statementValue
  return .letBinding name.text value

/-- Reads `return value;` from its first word on. -/
def returning : ParserM σ Statement := do
  advance
  let value ← routines.statementValue
  return .returning value

/-- Reads an expression as a statement. -/
def expressionStatement : ParserM σ Statement := do
  let value ← routines.statementValue
  return .expression value

/-- Reads a block from its opening brace to its closing one, or to the end of input. -/
def block : ParserM σ (List Statement) := do
  announce .block
  advance
  routines.statements .block

/-- Reads a statement by a rule. -/
def statementBy : StatementRule → ParserM σ Statement
  | .lookup => routines.statement
  | .letBinding => routines.letBinding
  | .returning => routines.returning
  | .expression => routines.expressionStatement
  | .block => do return .block (← routines.block)

/-- One step of reading a statement: the rule for the current token, if it has one. -/
def statementStep : ParserM σ Statement := do
  let parser ← get
  announce (.statement parser.current.kind)
  match parser.tables.statement? parser.current.kind with
  | some rule => routines.statementBy rule
  | none => routines.expressionStatement

/-- One step of reading the statements of a region. -/
def statementsStep (region : Region) : ParserM σ (List Statement) := do
  if region.endsAt (← current).kind then
    return []
  else
    let statement ← attempt routines.statement
    advance
    let rest ← routines.statements region
    return statement.toList ++ rest

end Routines

end Monkey
