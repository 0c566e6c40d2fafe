import Monkey.Parser.Action
import Monkey.Tree.Basic

/-!
# The recursive routines of the parser

Reading an expression needs reading of statements and the other way round. The routines that call
each other are collected in one record, and each way of reading something is written over any such
record: it says what one step does when the routines it calls are given.
-/

namespace Monkey

/-- A stretch of statements: a whole program, or a block. -/
inductive Region where
  | program
  | block
  deriving DecidableEq

/-- Whether a stretch of statements is over in front of a kind. -/
def Region.endsAt : Region → TokenKind → Bool
  | _, .endOfInput => true
  | block, .closeCurly => true
  | _, _ => false

/-- The routines that call each other. -/
structure Routines (σ : Type) where
  /-- reads an expression whose operators bind tighter than the limit -/
  expression (limit : Precedence) : ParserM σ Expression
  /-- goes on behind an operand as long as operators bind tighter than the limit -/
  operators (limit : Precedence) (left : Expression) : ParserM σ Expression
  /-- reads the further parameters of a function, each behind a comma -/
  parameters : ParserM σ (List String)
  /-- reads the further arguments of a call, each behind a comma -/
  arguments : ParserM σ (List Expression)
  /-- reads a statement -/
  statement : ParserM σ Statement
  /-- reads statements up to the end of a region, leaving out those that fail -/
  statements (region : Region) : ParserM σ (List Statement)

/-- The routines without any steps left. -/
def Routines.stuck {σ : Type} : Routines σ where
  expression _ := ParserM.stuck
  operators _ _ := ParserM.stuck
  parameters := ParserM.stuck
  arguments := ParserM.stuck
  statement := ParserM.stuck
  statements _ := ParserM.stuck

end Monkey
