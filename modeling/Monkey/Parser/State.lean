import Monkey.Parser.Log
import Monkey.Parser.Tables
import Monkey.Token.Source

/-!
# The state of a parser

A parser sees two tokens of its supply, the current one and the one behind it, keeps count of how
deeply the expressions it is reading are nested, and collects diagnostics and log entries.
-/

namespace Monkey

/-- How deeply expressions may be nested. -/
def maxNesting : Nat :=
  256

/-- A parser over a supply of tokens. -/
structure Parser (σ : Type) where
  supply : σ
  /-- the token under examination -/
  current : Token
  /-- the token behind the current one -/
  peek : Token
  options : Options
  tables : Tables
  /-- the number of expressions being read, one inside the other -/
  depth : Nat
  /-- what was found wrong, in the order it was noticed -/
  diagnostics : Array Diagnostic
  log : Array LogEntry

namespace Parser

variable {σ : Type}

/-- A parser in front of a supply, with the tables of the language. -/
def ofSupply [TokenSource σ] (supply : σ) (options : Options) : Parser σ :=
  let (current, supply) := TokenSource.next supply
  let (peek, supply) := TokenSource.next supply
  ⟨supply, current, peek, options, .standard options, 0, #[], #[]⟩

/-- Moves on by one token. -/
def advance [TokenSource σ] (parser : Parser σ) : Parser σ :=
  { parser with
    current := parser.peek
    peek := (TokenSource.next parser.supply).1
    supply := (TokenSource.next parser.supply).2 }

/-- Writes an entry to the log. -/
def write (parser : Parser σ) (entry : LogEntry) : Parser σ :=
  { parser with log := parser.log.push entry }

/-- Records that something is wrong at a place. -/
def record (parser : Parser σ) (cause : Cause) (position : Position) : Parser σ :=
  { parser with
    diagnostics := parser.diagnostics.push ⟨cause, position⟩
    log := parser.log.push (.event (.recorded ⟨cause, position⟩)) }

/-- Leaves one level of nesting. -/
def leaveNesting (parser : Parser σ) : Parser σ :=
  { parser with depth := parser.depth - 1 }

/-- How tightly the current token binds. -/
def currentPrecedence (parser : Parser σ) : Precedence :=
  parser.tables.precedence parser.current.kind

/-- How tightly the token behind the current one binds. -/
def peekPrecedence (parser : Parser σ) : Precedence :=
  parser.tables.precedence parser.peek.kind

end Parser

end Monkey
