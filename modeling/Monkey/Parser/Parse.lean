import Monkey.Parser.Termination
import Monkey.Scanner.Basic

/-!
# Parsing tokens and sources

The entry points of the library. Parsing always has a result, whatever the input: what is wrong
with it is in the diagnostics, and statements that could not be read are left out of the program.
-/

namespace Monkey

variable {σ : Type} [TokenSource σ]

/-- Parses what a supply hands out. -/
def parse (supply : σ) (options : Options) : Parse :=
  (parse? supply options).get (parse?_isSome supply options)

theorem parse?_eq_some (supply : σ) (options : Options) :
    parse? supply options = some (parse supply options) :=
  (Option.some_get _).symm

/-- Parses a list of tokens. -/
def parseTokens (tokens : List Token) (options : Options) : Parse :=
  parse (TokenStream.ofList tokens) options

/-- Parses a source. -/
def parseSource (source : String) (file : Option String) (options : Options) : Parse :=
  parse (Scanner.ofSource source file) options

/-- The result of parsing is what reading a program leaves behind. -/
theorem parse_eq_of_run {supply : σ} {options : Options} {program : Program} {after : Parser σ}
    (h : parseProgram.run (Parser.ofSupply supply options) = .ok program after) :
    parse supply options = ⟨program, after.diagnostics.toList, after.log.toList⟩ := by
  have result := parse?_eq_some supply options
  rw [parse?, h] at result
  exact (Option.some.inj result).symm

end Monkey
