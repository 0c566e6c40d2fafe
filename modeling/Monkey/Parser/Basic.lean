import Monkey.Parser.Expression
import Monkey.Tree.Equality

/-!
# The parser

The routines of the parser are tied together over a number of steps, `routines`, so that every
definition ends; `Parser.steps` is how many a parser is given, more than any parse needs that ends
at all. A parse can go round for ever only with tables that make the end of input an operand or
an operator, or that look a statement up in place of itself; its outcome is then `stuck`. With
the tables of the language it is not.
-/

namespace Monkey

open ParserM

variable {σ : Type} [TokenSource σ]

/-- The routines of the parser, one inside the other for at most `fuel` steps. -/
def routines : Nat → Routines σ
  | 0 => .stuck
  | fuel + 1 =>
    { expression := fun limit => (routines fuel).expressionStep limit
      operators := fun limit left => (routines fuel).operatorsStep limit left
      parameters := fun parser => (routines fuel).parametersStep parser
      arguments := fun parser => (routines fuel).argumentsStep parser
      statement := fun parser => (routines fuel).statementStep parser
      statements := fun region => (routines fuel).statementsStep region }

/-- The number of steps that a parser is given: some for each token and each level of nesting. -/
def Parser.steps (parser : Parser σ) : Nat :=
  8 * (maxNesting + 4 + TokenSource.remaining parser.supply)

/-- Runs an action of the routines with the steps that the parser is given. -/
def withRoutines {α : Type} (action : Routines σ → ParserM σ α) : ParserM σ α :=
  fun parser => action (routines parser.steps) parser

theorem run_withRoutines {α : Type} (action : Routines σ → ParserM σ α) (parser : Parser σ) :
    (withRoutines action).run parser = (action (routines parser.steps)).run parser := rfl

/-! ## What can be read -/

/-- Reads an expression whose operators bind tighter than the limit. -/
def parseExpression (limit : Precedence) : ParserM σ Expression :=
  withRoutines fun routines => routines.expression limit

/-- Reads an operand by a rule. -/
def parseOperand (rule : OperandRule) : ParserM σ Expression :=
  withRoutines fun routines => routines.operandBy rule

/-- Goes on behind an operand by a rule. -/
def parseOperator (left : Expression) (precedence : Precedence) (rule : OperatorRule) :
    ParserM σ Expression :=
  withRoutines fun routines => routines.operatorBy left precedence rule

/-- Reads a statement by a rule. -/
def parseStatement (rule : StatementRule) : ParserM σ Statement :=
  withRoutines fun routines => routines.statementBy rule

/-- Reads a whole program, up to the end of input. -/
def parseProgram : ParserM σ Program := do
  modify (·.write .openedProgram)
  modify (·.write .entered)
  let statements ← withRoutines fun routines => routines.statements .program
  modify fun parser =>
    parser.write (.event (.parsed statements.length parser.diagnostics.size))
  modify (·.write .left)
  return ⟨statements⟩

/-! ## Parsing in one go -/

/-- What comes of parsing: the program, all that was found wrong with it, and the log. -/
structure Parse where
  program : Program
  diagnostics : List Diagnostic
  log : List LogEntry
  deriving DecidableEq

/-- What comes of reading a program, if that ends. -/
def Parse.ofOutcome? {σ : Type} : Outcome σ Program → Option Parse
  | .ok program parser => some ⟨program, parser.diagnostics.toList, parser.log.toList⟩
  | .absent _ => none
  | .stuck => none

/-- Parses what a supply hands out. -/
def parse? (supply : σ) (options : Options) : Option Parse :=
  Parse.ofOutcome? (parseProgram.run (Parser.ofSupply supply options))

end Monkey
