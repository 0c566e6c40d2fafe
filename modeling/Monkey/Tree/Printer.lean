import Monkey.Text.Decimal
import Monkey.Tree.Basic

/-!
# Canonical text of trees

Every unary and binary expression is written in parentheses of its own, so the text shows how the
operators were grouped. An integer is written by its value, whatever text it was read from. The
statements of a block follow each other without anything between them, and the braces around a
block are left out.
-/

namespace Monkey

mutual

/-- The canonical text of an expression. -/
def Expression.render : Expression → String
  | .identifier name => name
  | .integer value _ => Text.writeDecimal value.toInt
  | .boolean value => booleanText value
  | .unary operator right => "(" ++ operator ++ right.render ++ ")"
  | .binary left operator right =>
    "(" ++ left.render ++ " " ++ operator ++ " " ++ right.render ++ ")"
  | .conditional condition consequence alternative =>
    "if" ++ condition.render ++ " " ++ renderBlock consequence ++ renderAlternative alternative
  | .function parameters body =>
    "fn(" ++ ", ".intercalate parameters ++ ") " ++ renderBlock body
  | .call callee arguments =>
    callee.render ++ "(" ++ ", ".intercalate (renderEach arguments) ++ ")"

/-- The canonical text of a statement. -/
def Statement.render : Statement → String
  | .letBinding name value => "let " ++ name ++ " = " ++ value.render ++ ";"
  | .returning value => "return " ++ value.render ++ ";"
  | .expression value => value.render
  | .block body => renderBlock body

/-- The canonical text of a list of statements: one after the other. -/
def renderBlock : List Statement → String
  | [] => ""
  | statement :: body => statement.render ++ renderBlock body

/-- The canonical text of what follows the first block of a conditional. -/
def renderAlternative : Option (List Statement) → String
  | none => ""
  | some body => " else " ++ renderBlock body

/-- The canonical texts of a list of expressions. -/
def renderEach : List Expression → List String
  | [] => []
  | expression :: rest => expression.render :: renderEach rest

end

/-- The canonical text of a program. -/
def Program.render (program : Program) : String :=
  renderBlock program.statements

/-- An integer that was written in its canonical form. -/
def Expression.canonicalInteger (value : Int64) : Expression :=
  .integer value (Text.writeDecimal value.toInt)

theorem renderEach_eq_map (expressions : List Expression) :
    renderEach expressions = expressions.map Expression.render := by
  induction expressions with
  | nil => rfl
  | cons expression rest ih => simp [renderEach, ih]

/-- The text of two lists of statements in a row is the two texts in a row. -/
theorem renderBlock_append (front back : List Statement) :
    renderBlock (front ++ back) = renderBlock front ++ renderBlock back := by
  induction front with
  | nil => simp [renderBlock]
  | cons statement front ih => simp [renderBlock, ih, String.append_assoc]

end Monkey
