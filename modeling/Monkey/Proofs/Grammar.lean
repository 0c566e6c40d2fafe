import Monkey.Parser.Tables
import Monkey.Text.Decimal
import Monkey.Token.Basic
import Monkey.Tree.Basic

/-!
# The grammar of the language

What a program looks like, said without the parser. A `Phrase` is an expression as it is written
and a `Clause` a statement: every token of the source stands in it, the parentheses of groups and
the semicolons included. `tokens` reads the tokens off in order, and `tree` forgets those that only
group or separate.

`Fits` says which of these trees belong to the language. It is asked in front of a kind of token,
the one that stands right behind the tree, or the end of input: a block may do without its closing
brace only at the end of input, and a statement without its semicolon only where nothing could be
taken for its continuation. Operators have levels: a binary operation on the left of one is at
least as high, one on the right is higher, and none stands behind a unary operator without
parentheses. `nesting` counts how many expressions a parser has to be inside of at once.
-/

namespace Monkey

/-- The kind of the first of some tokens, and another kind if there are none. -/
def leadKind (next : TokenKind) (tokens : List Token) : TokenKind :=
  (tokens.head?.map Token.kind).getD next

@[simp] theorem leadKind_cons (next : TokenKind) (token : Token) (tokens : List Token) :
    leadKind next (token :: tokens) = token.kind := rfl

theorem leadKind_append (next : TokenKind) (front back : List Token) :
    leadKind next (front ++ back) = leadKind (leadKind next back) front := by
  cases front <;> rfl

/-! ## Operators and options -/

/-- The levels of the binary operators, none of them above that of unary operators, and what else
may vary. A semicolon and the end of input are no operators, and a parenthesis is none where it
starts arguments. -/
structure Grammar where
  level? : TokenKind → Option Nat
  /-- an expression may be followed by arguments in parentheses -/
  calls : Bool
  /-- a statement needs its semicolon, except in front of a closing brace or the end of input -/
  strict : Bool
  level_pos : ∀ {kind level}, level? kind = some level → 0 < level
  level_le : ∀ {kind level}, level? kind = some level → level ≤ 5
  level?_semicolon : level? .semicolon = none
  level?_endOfInput : level? .endOfInput = none
  level?_openParen : calls = true → level? .openParen = none

namespace Grammar

/-- The levels of the binary operators of the language. -/
def standardLevel? : TokenKind → Option Nat
  | .equals | .notEquals => some 1
  | .less | .greater => some 2
  | .plus | .dash => some 3
  | .star | .slash => some 4
  | _ => none

/-- The grammar of the language under the given options. -/
def standard (options : Options) : Grammar where
  level? := standardLevel?
  calls := options.calls
  strict := options.strictSemicolons
  level_pos {kind level} h := by cases kind <;> simp [standardLevel?] at h <;> omega
  level_le {kind level} h := by cases kind <;> simp [standardLevel?] at h <;> omega
  level?_semicolon := rfl
  level?_endOfInput := rfl
  level?_openParen _ := rfl

/-- Whether a token right behind an expression goes on with it. -/
def Continues (g : Grammar) (kind : TokenKind) : Prop :=
  (g.level? kind).isSome = true ∨ g.calls = true ∧ kind = .openParen

/-- How a statement may end: with a semicolon, or in front of a kind without one. -/
def EndsStatement (g : Grammar) (next : TokenKind) : Option Token → Prop
  | some semicolon => semicolon.kind = .semicolon
  | none => ¬g.Continues next ∧ (g.strict = true → next = .closeCurly ∨ next = .endOfInput)

/-- What goes on with an expression: its level, and how. -/
def operator? (g : Grammar) (kind : TokenKind) : Option (Nat × OperatorRule) :=
  if g.calls = true ∧ kind = .openParen then some (6, .call)
  else (g.level? kind).map fun level => (level, .binary)

/-- How tightly what goes on with an expression binds; zero for what does not go on with one. -/
def strength (g : Grammar) (kind : TokenKind) : Nat :=
  ((g.operator? kind).map Prod.fst).getD 0

theorem operator?_of_level {g : Grammar} {kind : TokenKind} {level : Nat}
    (h : g.level? kind = some level) : g.operator? kind = some (level, .binary) := by
  have hcall : ¬(g.calls = true ∧ kind = .openParen) := by
    rintro ⟨hcalls, rfl⟩
    rw [g.level?_openParen hcalls] at h
    cases h
  rw [operator?, if_neg hcall, h]
  rfl

theorem strength_of_level {g : Grammar} {kind : TokenKind} {level : Nat}
    (h : g.level? kind = some level) : g.strength kind = level := by
  rw [strength, operator?_of_level h]
  rfl

/-- What does not go on with an expression binds nothing, and the other way round. -/
theorem not_continues_iff {g : Grammar} {kind : TokenKind} :
    ¬g.Continues kind ↔ g.strength kind = 0 := by
  unfold Continues strength operator?
  by_cases hcall : g.calls = true ∧ kind = .openParen
  · simp [hcall]
  · cases hlevel : g.level? kind with
    | none => simp [hcall]
    | some level =>
      have hpos := g.level_pos hlevel
      simp [hcall]
      omega

theorem strength_semicolon (g : Grammar) : g.strength .semicolon = 0 := by
  simp [strength, operator?, g.level?_semicolon]

theorem strength_endOfInput (g : Grammar) : g.strength .endOfInput = 0 := by
  simp [strength, operator?, g.level?_endOfInput]

theorem strength_le (g : Grammar) (kind : TokenKind) : g.strength kind ≤ 6 := by
  unfold strength operator?
  split
  next => exact Nat.le_refl 6
  next =>
    cases hlevel : g.level? kind with
    | none => exact Nat.zero_le 6
    | some level => exact Nat.le_succ_of_le (g.level_le hlevel)

/-- Tables that read statements and operands as the language does, and the operators of a
grammar. -/
structure Describes (g : Grammar) (tables : Tables) : Prop where
  statement : tables.statement? = Tables.standardStatement?
  operand : tables.operand? = Tables.standardOperand?
  operator : ∀ kind, (tables.operator? kind).map (fun entry => (entry.1.level, entry.2)) =
    g.operator? kind

theorem describes_standard (options : Options) :
    (standard options).Describes (Tables.standard options) := by
  refine ⟨rfl, rfl, fun kind => ?_⟩
  cases kind with
  | openParen => cases hcalls : options.calls <;> simp [operator?, Tables.standard, standard,
      Tables.standardOperator?, standardLevel?, hcalls, Precedence.level]
  | _ => simp [operator?, Tables.standard, standard, Tables.standardOperator?, standardLevel?,
      Precedence.level]

/-- The entry of the tables for what goes on with an expression. -/
theorem Describes.exists_entry {g : Grammar} {tables : Tables} (h : g.Describes tables)
    {kind : TokenKind} {level : Nat} {rule : OperatorRule}
    (hrule : g.operator? kind = some (level, rule)) :
    ∃ precedence : Precedence, precedence.level = level ∧
      tables.operator? kind = some (precedence, rule) := by
  have hentry := h.operator kind
  rw [hrule] at hentry
  obtain ⟨⟨precedence, rule'⟩, hfound, heq⟩ := Option.map_eq_some_iff.1 hentry
  cases heq
  exact ⟨precedence, rfl, hfound⟩

end Grammar

/-! ## Trees with every token -/

/-- The parameters of a function, each further one behind its comma. -/
inductive Parameters where
  | none
  | some (first : Token) (further : List (Token × Token))

mutual

/-- An expression as it is written. -/
inductive Phrase where
  | identifier (token : Token)
  | integer (token : Token) (value : Int64)
  | boolean (token : Token) (value : Bool)
  | group (opening : Token) (inner : Phrase) (closing : Token)
  | unary (operator : Token) (right : Phrase)
  | binary (left : Phrase) (operator : Token) (right : Phrase)
  | conditional (word opening : Token) (condition : Phrase) (closing : Token)
      (consequence : Block) (alternative : Alternative)
  | function (word opening : Token) (parameters : Parameters) (closing : Token) (body : Block)
  | call (callee : Phrase) (opening : Token) (arguments : Arguments) (closing : Token)

/-- The arguments of a call. -/
inductive Arguments where
  | none
  | some (first : Phrase) (further : FurtherArguments)

/-- The arguments behind the first, each behind its comma. -/
inductive FurtherArguments where
  | none
  | some (comma : Token) (argument : Phrase) (further : FurtherArguments)

/-- A block; without a closing brace if the end of input stands for it. -/
inductive Block where
  | mk (opening : Token) (body : List Clause) (closing : Option Token)

/-- What follows the first block of a conditional. -/
inductive Alternative where
  | none
  | some (word : Token) (block : Block)

/-- A statement as it is written, with or without its semicolon. -/
inductive Clause where
  | letBinding (word name assign : Token) (value : Phrase) (semicolon : Option Token)
  | returning (word : Token) (value : Phrase) (semicolon : Option Token)
  | expression (value : Phrase) (semicolon : Option Token)

end

/-! ## The tokens of a tree -/

def Parameters.tokens : Parameters → List Token
  | none => []
  | some first further => first :: further.flatMap fun (comma, name) => [comma, name]

mutual

/-- The tokens of an expression, in order. -/
def Phrase.tokens : Phrase → List Token
  | .identifier token => [token]
  | .integer token _ => [token]
  | .boolean token _ => [token]
  | .group opening inner closing => opening :: (inner.tokens ++ [closing])
  | .unary operator right => operator :: right.tokens
  | .binary left operator right => left.tokens ++ operator :: right.tokens
  | .conditional word opening condition closing consequence alternative =>
    word :: opening :: (condition.tokens ++ closing :: (consequence.tokens ++ alternative.tokens))
  | .function word opening parameters closing body =>
    word :: opening :: (parameters.tokens ++ closing :: body.tokens)
  | .call callee opening arguments closing =>
    callee.tokens ++ opening :: (arguments.tokens ++ [closing])

def Arguments.tokens : Arguments → List Token
  | .none => []
  | .some first further => first.tokens ++ further.tokens

def FurtherArguments.tokens : FurtherArguments → List Token
  | .none => []
  | .some comma argument further => comma :: (argument.tokens ++ further.tokens)

def Block.tokens : Block → List Token
  | .mk opening body closing => opening :: (clausesTokens body ++ closing.toList)

def Alternative.tokens : Alternative → List Token
  | .none => []
  | .some word block => word :: block.tokens

/-- The tokens of a statement, in order. -/
def Clause.tokens : Clause → List Token
  | .letBinding word name assign value semicolon =>
    word :: name :: assign :: (value.tokens ++ semicolon.toList)
  | .returning word value semicolon => word :: (value.tokens ++ semicolon.toList)
  | .expression value semicolon => value.tokens ++ semicolon.toList

/-- The tokens of statements in a row. -/
def clausesTokens : List Clause → List Token
  | [] => []
  | clause :: clauses => clause.tokens ++ clausesTokens clauses

end

/-! ## The tree without grouping and separators -/

def Parameters.names : Parameters → List String
  | none => []
  | some first further => first.text :: further.map fun (_, name) => name.text

mutual

/-- The expression that is written. -/
def Phrase.tree : Phrase → Expression
  | .identifier token => .identifier token.text
  | .integer token value => .integer value token.text
  | .boolean _ value => .boolean value
  | .group _ inner _ => inner.tree
  | .unary operator right => .unary operator.text right.tree
  | .binary left operator right => .binary left.tree operator.text right.tree
  | .conditional _ _ condition _ consequence alternative =>
    .conditional condition.tree consequence.trees alternative.trees
  | .function _ _ parameters _ body => .function parameters.names body.trees
  | .call callee _ arguments _ => .call callee.tree arguments.trees

def Arguments.trees : Arguments → List Expression
  | .none => []
  | .some first further => first.tree :: further.trees

def FurtherArguments.trees : FurtherArguments → List Expression
  | .none => []
  | .some _ argument further => argument.tree :: further.trees

def Block.trees : Block → List Statement
  | .mk _ body _ => clausesTrees body

def Alternative.trees : Alternative → Option (List Statement)
  | .none => none
  | .some _ block => some block.trees

/-- The statement that is written. -/
def Clause.tree : Clause → Statement
  | .letBinding _ name _ value _ => .letBinding name.text value.tree
  | .returning _ value _ => .returning value.tree
  | .expression value _ => .expression value.tree

/-- The statements that are written in a row. -/
def clausesTrees : List Clause → List Statement
  | [] => []
  | clause :: clauses => clause.tree :: clausesTrees clauses

end

/-! ## Trees of the language -/

/-- How tightly an expression holds together behind an operator: a binary operation by the level
of its operator, and anything else tightest. -/
def Phrase.level (g : Grammar) : Phrase → Nat
  | .binary _ operator _ => (g.level? operator.kind).getD 0
  | _ => 6

/-- How tightly what follows an expression may bind and still get the whole of it on its left: a
unary operator leaves arguments to its operand. -/
def Phrase.reach (g : Grammar) : Phrase → Nat
  | .binary _ operator _ => (g.level? operator.kind).getD 0
  | .unary _ _ => 5
  | _ => 6

theorem Phrase.reach_le_level (g : Grammar) (phrase : Phrase) :
    phrase.reach g ≤ phrase.level g := by
  cases phrase <;> simp [reach, level]

def Parameters.Fits : Parameters → Prop
  | none => True
  | some first further => first.kind = .identifier ∧
      ∀ pair ∈ further, pair.1.kind = .comma ∧ pair.2.kind = .identifier

/-- The kind of token that stands behind an argument. -/
def FurtherArguments.lead : FurtherArguments → TokenKind
  | .none => .closeParen
  | .some _ _ _ => .comma

/-- The kind of token that stands behind the first block of a conditional. -/
def Alternative.lead (next : TokenKind) : Alternative → TokenKind
  | .none => next
  | .some _ _ => .elseWord

mutual

/-- Whether an expression belongs to the language in front of a token of a kind. -/
def Phrase.Fits (g : Grammar) (next : TokenKind) : Phrase → Prop
  | .identifier token => token.kind = .identifier
  | .integer token value =>
    token.kind = .integer ∧ Text.readDecimal? token.text.toList = some value.toInt
  | .boolean token value => token.kind = if value then .trueWord else .falseWord
  | .group opening inner closing =>
    opening.kind = .openParen ∧ inner.Fits g .closeParen ∧ ¬g.Continues .closeParen ∧
      closing.kind = .closeParen
  | .unary operator right =>
    (operator.kind = .bang ∨ operator.kind = .dash) ∧ 6 ≤ right.level g ∧ right.Fits g next
  | .binary left operator right =>
    ∃ level, g.level? operator.kind = some level ∧ level ≤ left.reach g ∧
      left.Fits g operator.kind ∧ level < right.level g ∧ right.Fits g next
  | .conditional word opening condition closing consequence alternative =>
    word.kind = .ifWord ∧ opening.kind = .openParen ∧ condition.Fits g .closeParen ∧
      ¬g.Continues .closeParen ∧ closing.kind = .closeParen ∧
      consequence.Fits g (alternative.lead next) ∧ alternative.Fits g next
  | .function word opening parameters closing body =>
    word.kind = .fnWord ∧ opening.kind = .openParen ∧ parameters.Fits ∧
      closing.kind = .closeParen ∧ body.Fits g next
  | .call callee opening arguments closing =>
    g.calls = true ∧ 6 ≤ callee.reach g ∧ callee.Fits g .openParen ∧ opening.kind = .openParen ∧
      arguments.Fits g ∧ closing.kind = .closeParen

def Arguments.Fits (g : Grammar) : Arguments → Prop
  | .none => True
  | .some first further =>
    first.Fits g further.lead ∧ ¬g.Continues further.lead ∧ further.Fits g

def FurtherArguments.Fits (g : Grammar) : FurtherArguments → Prop
  | .none => True
  | .some comma argument further =>
    comma.kind = .comma ∧ argument.Fits g further.lead ∧ ¬g.Continues further.lead ∧
      further.Fits g

/-- Whether a block belongs to the language in front of a token of a kind: it is closed by its
brace, or by the end of input. -/
def Block.Fits (g : Grammar) (next : TokenKind) : Block → Prop
  | .mk opening body (some closing) =>
    opening.kind = .openCurly ∧ ClausesFit g .closeCurly body ∧ closing.kind = .closeCurly
  | .mk opening body none =>
    opening.kind = .openCurly ∧ ClausesFit g .endOfInput body ∧ next = .endOfInput

def Alternative.Fits (g : Grammar) (next : TokenKind) : Alternative → Prop
  | .none => next ≠ .elseWord
  | .some word block => word.kind = .elseWord ∧ block.Fits g next

/-- Whether a statement belongs to the language in front of a token of a kind. -/
def Clause.Fits (g : Grammar) (next : TokenKind) : Clause → Prop
  | .letBinding word name assign value semicolon =>
    word.kind = .letWord ∧ name.kind = .identifier ∧ assign.kind = .assign ∧
      value.Fits g (leadKind next semicolon.toList) ∧ g.EndsStatement next semicolon
  | .returning word value semicolon =>
    word.kind = .returnWord ∧ value.Fits g (leadKind next semicolon.toList) ∧
      g.EndsStatement next semicolon
  | .expression value semicolon =>
    value.Fits g (leadKind next semicolon.toList) ∧ g.EndsStatement next semicolon

/-- Whether statements in a row belong to the language, the last of them in front of a kind. -/
def ClausesFit (g : Grammar) (next : TokenKind) : List Clause → Prop
  | [] => True
  | clause :: clauses =>
    clause.Fits g (leadKind next (clausesTokens clauses)) ∧ ClausesFit g next clauses

end

/-- Tokens that are a way to write a program. -/
def Grammar.Derives (g : Grammar) (tokens : List Token) (program : Program) : Prop :=
  ∃ clauses, ClausesFit g .endOfInput clauses ∧ clausesTokens clauses = tokens ∧
    clausesTrees clauses = program.statements

/-! ## Nesting -/

mutual

/-- How many expressions a parser is inside of at once when it reads an expression. What stands on
the left of an operator or of arguments has been read by then and costs no level. -/
def Phrase.nesting : Phrase → Nat
  | .identifier _ => 1
  | .integer _ _ => 1
  | .boolean _ _ => 1
  | .group _ inner _ => 1 + inner.nesting
  | .unary _ right => 1 + right.nesting
  | .binary left _ right => max left.nesting (1 + right.nesting)
  | .conditional _ _ condition _ consequence alternative =>
    1 + max condition.nesting (max consequence.nesting alternative.nesting)
  | .function _ _ _ _ body => 1 + body.nesting
  | .call callee _ arguments _ => max callee.nesting (1 + arguments.nesting)

def Arguments.nesting : Arguments → Nat
  | .none => 0
  | .some first further => max first.nesting further.nesting

def FurtherArguments.nesting : FurtherArguments → Nat
  | .none => 0
  | .some _ argument further => max argument.nesting further.nesting

def Block.nesting : Block → Nat
  | .mk _ body _ => clausesNesting body

def Alternative.nesting : Alternative → Nat
  | .none => 0
  | .some _ block => block.nesting

/-- The nesting of the value of a statement. -/
def Clause.nesting : Clause → Nat
  | .letBinding _ _ _ value _ => value.nesting
  | .returning _ value _ => value.nesting
  | .expression value _ => value.nesting

/-- The greatest nesting of the value of a statement, of several in a row. -/
def clausesNesting : List Clause → Nat
  | [] => 0
  | clause :: clauses => max clause.nesting (clausesNesting clauses)

end

/-! ## Closed trees -/

/-- The semicolon of a statement, if it has one. -/
def Clause.semicolon : Clause → Option Token
  | .letBinding _ _ _ _ semicolon => semicolon
  | .returning _ _ semicolon => semicolon
  | .expression _ semicolon => semicolon

/-- Whether a block has its closing brace. -/
def Block.closed : Block → Bool
  | .mk _ _ closing => closing.isSome

/-- Whether a conditional has its last closing brace, if its first block has its own. -/
def Alternative.closed (consequence : Bool) : Alternative → Bool
  | .none => consequence
  | .some _ block => block.closed

/-- Whether an expression ends with a token of its own, and not with the end of input. -/
def Phrase.closed : Phrase → Bool
  | .unary _ right => right.closed
  | .binary _ _ right => right.closed
  | .conditional _ _ _ _ consequence alternative => alternative.closed consequence.closed
  | .function _ _ _ _ body => body.closed
  | _ => true

end Monkey
