import Monkey.Parser.Precedence
import Monkey.Token.Kind

/-!
# Parse tables

The parser decides what to do by looking up the kind of a token: which rule reads the statement or
the operand that starts with it, and which rule goes on with an operator, how tightly bound. The
tables can be changed kind by kind; `Tables.standard` are those of the language.
-/

namespace Monkey

/-- What may vary from parse to parse. -/
structure Options where
  /-- A statement needs its semicolon, except in front of a closing brace or the end of input. -/
  strictSemicolons : Bool := false
  /-- An opening parenthesis behind an operand starts the arguments of a call. -/
  calls : Bool := false
  deriving DecidableEq, Inhabited

/-- The ways to read a statement. -/
inductive StatementRule where
  /-- look the current token up in the table of statements -/
  | lookup
  | letBinding
  | returning
  | expression
  | block
  deriving DecidableEq

/-- The ways to read an operand, by its first token. -/
inductive OperandRule where
  | identifier
  | integer
  | boolean
  | unary
  | grouping
  | conditional
  | function
  deriving DecidableEq

/-- The ways to go on behind an operand. -/
inductive OperatorRule where
  | binary
  | call
  deriving DecidableEq

/-- The rules by token kind. A kind without a statement rule starts an expression statement. -/
structure Tables where
  statement? : TokenKind → Option StatementRule
  operand? : TokenKind → Option OperandRule
  operator? : TokenKind → Option (Precedence × OperatorRule)

namespace Tables

/-- Sets the rule for statements that start with a kind. -/
def setStatement (tables : Tables) (kind : TokenKind) (rule : StatementRule) : Tables :=
  { tables with statement? := fun k => if k = kind then some rule else tables.statement? k }

/-- Sets the rule for operands that start with a kind. -/
def setOperand (tables : Tables) (kind : TokenKind) (rule : OperandRule) : Tables :=
  { tables with operand? := fun k => if k = kind then some rule else tables.operand? k }

/-- Sets the rule for a kind as an operator, and how tightly it binds. -/
def setOperator (tables : Tables) (kind : TokenKind) (precedence : Precedence)
    (rule : OperatorRule) : Tables :=
  { tables with
    operator? := fun k => if k = kind then some (precedence, rule) else tables.operator? k }

/-- How tightly a kind binds as an operator; what is no operator does not bind. -/
def precedence (tables : Tables) (kind : TokenKind) : Precedence :=
  ((tables.operator? kind).map Prod.fst).getD .lowest

/-- The operators of the language. -/
def standardOperator? (options : Options) : TokenKind → Option (Precedence × OperatorRule)
  | .equals => some (.equality, .binary)
  | .notEquals => some (.equality, .binary)
  | .less => some (.comparison, .binary)
  | .greater => some (.comparison, .binary)
  | .plus => some (.sum, .binary)
  | .dash => some (.sum, .binary)
  | .star => some (.product, .binary)
  | .slash => some (.product, .binary)
  | .openParen => if options.calls then some (.call, .call) else none
  | _ => none

/-- The operands of the language. -/
def standardOperand? : TokenKind → Option OperandRule
  | .identifier => some .identifier
  | .integer => some .integer
  | .trueWord => some .boolean
  | .falseWord => some .boolean
  | .bang => some .unary
  | .dash => some .unary
  | .openParen => some .grouping
  | .ifWord => some .conditional
  | .fnWord => some .function
  | _ => none

/-- The statements of the language that are not just an expression. -/
def standardStatement? : TokenKind → Option StatementRule
  | .letWord => some .letBinding
  | .returnWord => some .returning
  | _ => none

/-- The tables of the language. -/
def standard (options : Options) : Tables :=
  ⟨standardStatement?, standardOperand?, standardOperator? options⟩

end Tables

end Monkey
