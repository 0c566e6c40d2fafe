import Monkey.Parser.State

/-!
# Parser actions

An action reads something from a parser's tokens. It may come out with a value, or without one:
then it has recorded why, and the parser goes on from the state it was left in. The third outcome,
`stuck`, is that of an action that was cut short because it was given too few steps.
-/

namespace Monkey

/-- How an action comes out. -/
inductive Outcome (σ α : Type) where
  /-- a value was read -/
  | ok (value : α) (parser : Parser σ)
  /-- no value was read, for a reason that is among the diagnostics -/
  | absent (parser : Parser σ)
  /-- the action was not given enough steps to end -/
  | stuck

namespace Outcome

variable {σ α : Type}

/-- Changes the parser that an outcome leaves behind. -/
def mapParser (f : Parser σ → Parser σ) : Outcome σ α → Outcome σ α
  | ok value parser => ok value (f parser)
  | absent parser => absent (f parser)
  | stuck => stuck

/-- The parser that an outcome leaves behind. -/
def parser? : Outcome σ α → Option (Parser σ)
  | ok _ parser => some parser
  | absent parser => some parser
  | stuck => none

/-- The value of an outcome. -/
def value? : Outcome σ α → Option α
  | ok value _ => some value
  | absent _ => none
  | stuck => none

end Outcome

/-- An action of a parser. -/
def ParserM (σ α : Type) : Type :=
  Parser σ → Outcome σ α

namespace ParserM

variable {σ α β : Type}

/-- Runs an action. -/
def run (action : ParserM σ α) (parser : Parser σ) : Outcome σ α :=
  action parser

/-- Comes out with a value and changes nothing. -/
def pure (value : α) : ParserM σ α :=
  fun parser => .ok value parser

/-- Runs an action and, if it has a value, another one that depends on it. -/
def bind (action : ParserM σ α) (next : α → ParserM σ β) : ParserM σ β :=
  fun parser =>
    match action parser with
    | .ok value parser => next value parser
    | .absent parser => .absent parser
    | .stuck => .stuck

instance : Monad (ParserM σ) where
  pure := pure
  bind := bind

/-- The state of the parser. -/
def get : ParserM σ (Parser σ) :=
  fun parser => .ok parser parser

/-- Changes the state of the parser. -/
def modify (f : Parser σ → Parser σ) : ParserM σ Unit :=
  fun parser => .ok () (f parser)

/-- Comes out without a value. -/
def absent : ParserM σ α :=
  fun parser => .absent parser

/-- The outcome of an action without steps left. -/
def stuck : ParserM σ α :=
  fun _ => .stuck

/-- Runs an action and goes on whether it has a value or not. -/
def attempt (action : ParserM σ α) : ParserM σ (Option α) :=
  fun parser =>
    match action parser with
    | .ok value parser => .ok (some value) parser
    | .absent parser => .ok none parser
    | .stuck => .stuck

/-- Comes out with the value of an option. -/
def ofOption : Option α → ParserM σ α
  | some value => pure value
  | none => absent

/-! ## Steps -/

/-- Moves on by one token. -/
def advance [TokenSource σ] : ParserM σ Unit :=
  modify Parser.advance

/-- Writes an event to the log. -/
def announce (event : Event) : ParserM σ Unit :=
  modify (·.write (.event event))

/-- The current token. -/
def current : ParserM σ Token :=
  fun parser => .ok parser.current parser

/-- Whether the token behind the current one is of a kind. -/
def peekIs (kind : TokenKind) : ParserM σ Bool :=
  fun parser => .ok (decide (parser.peek.kind = kind)) parser

/-- Records that something is wrong with the current token, and comes out without a value. -/
def fail (cause : Cause) : ParserM σ α :=
  fun parser => .absent (parser.record cause parser.current.span.start)

/-- Moves on to a token of a kind; if another one comes next, records that and stays. -/
def expect [TokenSource σ] (kind : TokenKind) : ParserM σ Unit :=
  fun parser =>
    if parser.peek.kind = kind then .ok () parser.advance
    else
      .absent (parser.record (.unexpectedToken kind parser.peek.kind) parser.peek.span.start)

/-- Enters one more level of nesting; at the limit, records that and stays. -/
def enterNesting : ParserM σ Unit :=
  fun parser =>
    if parser.depth < maxNesting then .ok () { parser with depth := parser.depth + 1 }
    else .absent (parser.record (.nestingTooDeep maxNesting) parser.current.span.start)

/-- Runs an action one level of nesting further in, and comes back out however it ends. -/
def nested (action : ParserM σ α) : ParserM σ α :=
  bind enterNesting fun _ parser => (action parser).mapParser Parser.leaveNesting

/-! ## Equations -/

section Equations

variable {parser : Parser σ}

@[simp] theorem run_pure (value : α) :
    (Pure.pure value : ParserM σ α).run parser = .ok value parser := rfl

theorem run_bind (action : ParserM σ α) (next : α → ParserM σ β) :
    (action >>= next).run parser =
      match action.run parser with
      | .ok value parser => (next value).run parser
      | .absent parser => .absent parser
      | .stuck => .stuck := rfl

@[simp] theorem run_get : (get : ParserM σ (Parser σ)).run parser = .ok parser parser := rfl

@[simp] theorem run_modify (f : Parser σ → Parser σ) :
    (modify f).run parser = .ok () (f parser) := rfl

theorem run_attempt (action : ParserM σ α) :
    (attempt action).run parser =
      match action.run parser with
      | .ok value parser => .ok (some value) parser
      | .absent parser => .ok none parser
      | .stuck => .stuck := rfl

@[simp] theorem run_absent : (absent : ParserM σ α).run parser = .absent parser := rfl

@[simp] theorem run_stuck : (stuck : ParserM σ α).run parser = .stuck := rfl

@[simp] theorem run_advance [TokenSource σ] :
    (advance : ParserM σ Unit).run parser = .ok () parser.advance := rfl

@[simp] theorem run_announce (event : Event) :
    (announce event).run parser = .ok () (parser.write (.event event)) := rfl

@[simp] theorem run_current : (current : ParserM σ Token).run parser = .ok parser.current parser :=
  rfl

@[simp] theorem run_peekIs (kind : TokenKind) :
    (peekIs kind).run parser = .ok (decide (parser.peek.kind = kind)) parser := rfl

@[simp] theorem run_fail (cause : Cause) :
    (fail cause : ParserM σ α).run parser =
      .absent (parser.record cause parser.current.span.start) := rfl

theorem run_expect [TokenSource σ] (kind : TokenKind) :
    (expect kind).run parser =
      if parser.peek.kind = kind then .ok () parser.advance
      else
        .absent (parser.record (.unexpectedToken kind parser.peek.kind) parser.peek.span.start) :=
  rfl

theorem run_enterNesting :
    (enterNesting : ParserM σ Unit).run parser =
      if parser.depth < maxNesting then .ok () { parser with depth := parser.depth + 1 }
      else .absent (parser.record (.nestingTooDeep maxNesting) parser.current.span.start) := rfl

theorem run_nested (action : ParserM σ α) :
    (nested action).run parser =
      if parser.depth < maxNesting then
        (action.run { parser with depth := parser.depth + 1 }).mapParser Parser.leaveNesting
      else
        .absent (parser.record (.nestingTooDeep maxNesting) parser.current.span.start) := by
  by_cases h : parser.depth < maxNesting <;> simp [run, nested, bind, enterNesting, h]

end Equations

@[ext] theorem ext {a b : ParserM σ α} (h : ∀ parser, a.run parser = b.run parser) : a = b :=
  funext h

instance : LawfulMonad (ParserM σ) :=
  LawfulMonad.mk' (ParserM σ)
    (by
      intro α action
      ext parser
      change (action >>= fun value => Pure.pure value).run parser = action.run parser
      rw [run_bind]
      cases action.run parser <;> rfl)
    (fun _ _ => rfl)
    (by
      intro α β γ action f g
      ext parser
      simp only [run_bind]
      cases action.run parser <;> rfl)

end ParserM

end Monkey
