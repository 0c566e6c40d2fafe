/-!
# Syntax trees

Expressions and statements of the language. Operators are kept as the text they were written
with, and an integer keeps the text it was read from beside its value. A block is the list of its
statements. `leadText` is the text of the token that introduces a node.
-/

namespace Monkey

mutual

/-- Expressions. -/
inductive Expression where
  | identifier (name : String)
  /-- `literal` is the text that the value was read from -/
  | integer (value : Int64) (literal : String)
  | boolean (value : Bool)
  | unary (operator : String) (right : Expression)
  | binary (left : Expression) (operator : String) (right : Expression)
  | conditional (condition : Expression) (consequence : List Statement)
      (alternative : Option (List Statement))
  | function (parameters : List String) (body : List Statement)
  | call (callee : Expression) (arguments : List Expression)

/-- Statements. -/
inductive Statement where
  | letBinding (name : String) (value : Expression)
  | returning (value : Expression)
  | expression (value : Expression)
  | block (body : List Statement)

end

/-- A whole program: its statements in source order. -/
structure Program where
  statements : List Statement

/-- The text that introduces a block. -/
def blockLeadText : String :=
  "\x7b"

/-- The text of a truth value. -/
def booleanText : Bool → String
  | true => "true"
  | false => "false"

/-- The text of the token that introduces an expression; for an operator, the operator itself. -/
def Expression.leadText : Expression → String
  | identifier name => name
  | integer _ literal => literal
  | boolean value => booleanText value
  | unary operator _ => operator
  | binary _ operator _ => operator
  | conditional _ _ _ => "if"
  | function _ _ => "fn"
  | call _ _ => "("

/-- The text of the token that introduces a statement. -/
def Statement.leadText : Statement → String
  | letBinding _ _ => "let"
  | returning _ => "return"
  | expression value => value.leadText
  | block _ => blockLeadText

/-- The text of the token that introduces a program; empty for one without statements. -/
def Program.leadText (program : Program) : String :=
  (program.statements.head?.map Statement.leadText).getD ""

end Monkey
