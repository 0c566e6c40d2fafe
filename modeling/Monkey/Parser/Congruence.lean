import Monkey.Parser.Basic
import Monkey.Parser.Rounds

/-!
# One walk through the routines

Much of what holds of all routines is proved in one way. Something is said of an action, or of two
actions side by side; it holds of the single steps and is kept when one action follows another;
so it holds of every way of reading something if it does of the routines that are called, and by
induction of all routines, with any number of steps. A `Congruence` is something that can be said
like that, with the rules that it takes. The walk through the routines is made here, once for all
congruences: `Congruence.Reads` is about the routines for expressions, `Congruence.Keeps` about all
of them, `Congruence.Keeps.succ` makes one step, and `Congruence.keeps_routines` any number of them.

What is said may depend on what was read. An index goes along with the reading, and a
`Correspondence` says which values of the two actions go together between two indices. A congruence
about a single action is one that does not look at the second. For parsing to end, the tokens still
unread are counted; a congruence that does not count them leaves their number alone, and is made
from what it says of single actions (`ActionRules`).
-/

namespace Monkey

open ParserM

/-! ## Categories -/

/-- The categories of what is read. -/
inductive Category where
  | names
  | expression
  /-- an operand, with or without operators behind it, inside the expression that it makes -/
  | operand
  /-- the value of a statement up to the end of the statement -/
  | value
  | statement
  /-- a statement, or none if it could not be read -/
  | attempt
  | block
  /-- what is behind the first block of a conditional -/
  | alternative
  | arguments
  deriving DecidableEq

namespace Category

/-- What is read in a category. -/
abbrev Value : Category → Type
  | names => List String
  | expression => Expression
  | operand => Expression
  | value => Expression
  | statement => Statement
  | attempt => Option Statement
  | block => List Statement
  | alternative => Option (List Statement)
  | arguments => List Expression

/-- Whether reading may fail when the value has been read, as the semicolon comes last. -/
def failsLate : Category → Bool
  | value => true
  | statement => true
  | _ => false

end Category

/-- Which values of two readings go together. What is read takes an index to another one, and
values are built from what was read in between, part by part. -/
structure Correspondence (ι : Type) where
  holds (category : Category) : ι → ι → category.Value → category.Value → Prop
  noNames {i : ι} : holds .names i i [] []
  name {i j : ι} {rest rest' : List String} (first : String) : holds .names i j rest rest' →
    holds .names i j (first :: rest) (first :: rest')
  identifier {i : ι} (name : String) : holds .operand i i (.identifier name) (.identifier name)
  boolean {i : ι} (value : Bool) : holds .operand i i (.boolean value) (.boolean value)
  unary {i j : ι} {e e' : Expression} (operator : String) : holds .expression i j e e' →
    holds .operand i j (.unary operator e) (.unary operator e')
  grouping {i j : ι} {e e' : Expression} : holds .expression i j e e' → holds .operand i j e e'
  conditional {i j k l : ι} {c c' : Expression} {b b' : List Statement}
    {a a' : Option (List Statement)} : holds .expression i j c c' → holds .block j k b b' →
    holds .alternative k l a a' → holds .operand i l (.conditional c b a) (.conditional c' b' a')
  function {i j k : ι} {n n' : List String} {b b' : List Statement} : holds .names i j n n' →
    holds .block j k b b' → holds .operand i k (.function n b) (.function n' b')
  binary {i j k : ι} {l l' r r' : Expression} (operator : String) : holds .operand i j l l' →
    holds .expression j k r r' → holds .operand i k (.binary l operator r) (.binary l' operator r')
  call {i j k : ι} {c c' : Expression} {a a' : List Expression} : holds .operand i j c c' →
    holds .arguments j k a a' → holds .operand i k (.call c a) (.call c' a')
  noArguments {i : ι} : holds .arguments i i [] []
  argument {i j k : ι} {e e' : Expression} {rest rest' : List Expression} :
    holds .expression i j e e' → holds .arguments j k rest rest' →
    holds .arguments i k (e :: rest) (e' :: rest')
  noAlternative {i : ι} : holds .alternative i i none none
  alternative {i j : ι} {b b' : List Statement} : holds .block i j b b' →
    holds .alternative i j (some b) (some b')
  letBinding {i j : ι} {e e' : Expression} (name : String) : holds .value i j e e' →
    holds .statement i j (.letBinding name e) (.letBinding name e')
  returning {i j : ι} {e e' : Expression} : holds .value i j e e' →
    holds .statement i j (.returning e) (.returning e')
  expressionStatement {i j : ι} {e e' : Expression} : holds .value i j e e' →
    holds .statement i j (.expression e) (.expression e')
  block {i j : ι} {b b' : List Statement} : holds .block i j b b' →
    holds .statement i j (.block b) (.block b')
  noStatements {i : ι} : holds .block i i [] []
  statements {i j k : ι} {first first' : Option Statement} {rest rest' : List Statement} :
    holds .attempt i j first first' → holds .block j k rest rest' →
    holds .block i k (first.toList ++ rest) (first'.toList ++ rest')

namespace Correspondence

/-- All values go together. -/
def all : Correspondence Unit where
  holds _ _ _ _ _ := True
  noNames := trivial
  name _ _ := trivial
  identifier _ := trivial
  boolean _ := trivial
  unary _ _ := trivial
  grouping _ := trivial
  conditional _ _ _ := trivial
  function _ _ := trivial
  binary _ _ _ := trivial
  call _ _ := trivial
  noArguments := trivial
  argument _ _ := trivial
  noAlternative := trivial
  alternative _ := trivial
  letBinding _ _ := trivial
  returning _ := trivial
  expressionStatement _ := trivial
  block _ := trivial
  noStatements := trivial
  statements _ _ := trivial

/-- Every value goes with itself only. -/
def same : Correspondence Unit where
  holds _ _ _ v w := v = w
  noNames := rfl
  name _ h := congrArg _ h
  identifier _ := rfl
  boolean _ := rfl
  unary _ h := congrArg _ h
  grouping h := h
  conditional := by rintro _ _ _ _ _ _ _ _ _ _ rfl rfl rfl; rfl
  function := by rintro _ _ _ _ _ _ _ rfl rfl; rfl
  binary _ := by rintro rfl rfl; rfl
  call := by rintro _ _ _ _ _ _ _ rfl rfl; rfl
  noArguments := rfl
  argument := by rintro _ _ _ _ _ _ _ rfl rfl; rfl
  noAlternative := rfl
  alternative h := congrArg _ h
  letBinding _ h := congrArg _ h
  returning h := congrArg _ h
  expressionStatement h := congrArg _ h
  block h := congrArg _ h
  noStatements := rfl
  statements := by rintro _ _ _ _ _ _ _ rfl rfl; rfl

end Correspondence

/-! ## Steps -/

/-- Routines that make one step and then call others. -/
def Routines.step {σ : Type} [TokenSource σ] (r : Routines σ) : Routines σ where
  expression := r.expressionStep
  operators := r.operatorsStep
  parameters := r.parametersStep
  arguments := r.argumentsStep
  statement := r.statementStep
  statements := r.statementsStep

theorem routines_succ {σ : Type} [TokenSource σ] (fuel : Nat) :
    (routines (fuel + 1) : Routines σ) = (routines fuel).step := rfl

/-! ## Congruences -/

variable {σ τ ι : Type} [TokenSource σ] [TokenSource τ]

/-- Something that can be said of two actions, with the rules for what expressions are read by.
`Relates c n s i a b` is about actions of category `c` that start with at most `n` tokens unread and
at index `i`, and whose values reach back to index `s`. -/
structure Congruence (σ τ ι : Type) [TokenSource σ] [TokenSource τ] where
  values : Correspondence ι
  /-- the index one level of nesting further in -/
  inner : ι → ι
  /-- the tokens that are unread are counted -/
  counted : Prop
  Relates (c : Category) (n : Nat) (s i : ι) : ParserM σ c.Value → ParserM τ c.Value → Prop
  /-- Too few steps are no matter if tokens are not counted. -/
  stuck {c : Category} {n : Nat} {s i : ι} : ¬counted →
    Relates c n s i ParserM.stuck ParserM.stuck
  pure {c : Category} {n : Nat} {s i : ι} {v w : c.Value} : values.holds c s i v w →
    Relates c n s i (Pure.pure v) (Pure.pure w)
  bind {c d : Category} {n : Nat} {s t i : ι} {a : ParserM σ c.Value} {b : ParserM τ c.Value}
    {f : c.Value → ParserM σ d.Value} {g : c.Value → ParserM τ d.Value} :
    c.failsLate = false → Relates c n s i a b →
    (∀ {m : Nat} {j : ι} {v w : c.Value}, m ≤ n → values.holds c s j v w →
      Relates d m t j (f v) (g w)) →
    Relates d n t i (a >>= f) (b >>= g)
  current {c : Category} {n : Nat} {s i : ι} {f : Token → ParserM σ c.Value}
    {g : Token → ParserM τ c.Value} : (∀ token, Relates c n s i (f token) (g token)) →
    Relates c n s i (ParserM.current >>= f) (ParserM.current >>= g)
  advance {c : Category} {n : Nat} {s i : ι} {f : Unit → ParserM σ c.Value}
    {g : Unit → ParserM τ c.Value} : Relates c (n - 1) s i (f ()) (g ()) →
    Relates c n s i (ParserM.advance >>= f) (ParserM.advance >>= g)
  expect {c : Category} {n : Nat} {s i : ι} {kind : TokenKind} {f : Unit → ParserM σ c.Value}
    {g : Unit → ParserM τ c.Value} : kind ≠ .endOfInput → kind ≠ .semicolon →
    ((counted → 0 < n) → Relates c (n - 1) s i (f ()) (g ())) →
    Relates c n s i (ParserM.expect kind >>= f) (ParserM.expect kind >>= g)
  ifPeek {c : Category} {n : Nat} {s i : ι} {kind : TokenKind} {a a' : ParserM σ c.Value}
    {b b' : ParserM τ c.Value} : kind ≠ .endOfInput →
    ((counted → 0 < n) → Relates c n s i a b) → Relates c n s i a' b' →
    Relates c n s i (ParserM.peekIs kind >>= fun there => if there = true then a else a')
      (ParserM.peekIs kind >>= fun there => if there = true then b else b')
  nested {n : Nat} {i : ι} {a : ParserM σ Expression} {b : ParserM τ Expression} :
    Relates .operand n (inner i) (inner i) a b →
    Relates .expression n i i (ParserM.nested a) (ParserM.nested b)
  integer {n : Nat} {i : ι} : Relates .operand n i i integerOperand integerOperand
  byOperand {n : Nat} {i : ι} {limit : Precedence} {f : OperandRule → ParserM σ Expression}
    {g : OperandRule → ParserM τ Expression} :
    (∀ rule, (counted → 0 < n) → Relates .operand n i i (f rule) (g rule)) →
    Relates .operand n i i (ParserM.byOperand limit f) (ParserM.byOperand limit g)
  byOperator {n : Nat} {s i : ι} {limit : Precedence} {left left' : Expression}
    {f : Precedence → OperatorRule → ParserM σ Expression}
    {g : Precedence → OperatorRule → ParserM τ Expression} :
    values.holds .operand s i left left' →
    (∀ precedence rule, (counted → 0 < n) →
      Relates .operand n s i (f precedence rule) (g precedence rule)) →
    Relates .operand n s i (ParserM.byOperator limit left f) (ParserM.byOperator limit left' g)
  /-- The end of a statement is looked for whether its value could be read or not. -/
  statementValue {n : Nat} {i : ι} {a : ParserM σ Expression} {b : ParserM τ Expression} :
    Relates .expression n i i a b →
    Relates .value n i i (ParserM.attempt a >>= finishStatement)
      (ParserM.attempt b >>= finishStatement)
  ofValue {n : Nat} {i : ι} {a : ParserM σ Expression} {b : ParserM τ Expression}
    {f g : Expression → Statement} : Relates .value n i i a b →
    (∀ {j : ι} {v w : Expression}, values.holds .value i j v w →
      values.holds .statement i j (f v) (g w)) →
    Relates .statement n i i (a >>= fun v => Pure.pure (f v)) (b >>= fun w => Pure.pure (g w))

namespace Congruence

/-- The rules for what statements are read by. They are apart, as a congruence for expressions may
be part of a relation that says something else of the routines for statements. -/
structure StatementRules (C : Congruence σ τ ι) : Prop where
  announceBlock {n : Nat} {i : ι} {a : ParserM σ (List Statement)}
      {b : ParserM τ (List Statement)} :
    C.Relates .block n i i a b →
    C.Relates .block n i i (ParserM.announce .block >>= fun _ => a)
      (ParserM.announce .block >>= fun _ => b)
  /-- No statement starts at the end of input, and none is looked up in place of itself. -/
  byStatement {n : Nat} {i : ι} {f : Option StatementRule → ParserM σ Statement}
    {g : Option StatementRule → ParserM τ Statement} :
    (∀ rule?, (∀ rule ∈ rule?, C.counted → 0 < n ∧ rule ≠ .lookup) →
      C.Relates .statement n i i (f rule?) (g rule?)) →
    C.Relates .statement n i i (ParserM.byStatement f) (ParserM.byStatement g)
  unlessOver {n : Nat} {i : ι} {region : Region} {a : ParserM σ (List Statement)}
    {b : ParserM τ (List Statement)} :
    ((C.counted → 0 < n) → C.Relates .block n i i a b) →
    C.Relates .block n i i (ParserM.unlessOver region a) (ParserM.unlessOver region b)
  attempt {n : Nat} {i : ι} {a : ParserM σ Statement} {b : ParserM τ Statement} :
    C.Relates .statement n i i a b →
    C.Relates .attempt n i i (ParserM.attempt a) (ParserM.attempt b)

variable {C : Congruence σ τ ι} {fuel extra unread n : Nat} {s i : ι}

/-! ## Steps and tokens -/

variable (C) in
/-- Some tokens are unread, if they are counted. -/
def Ahead (unread : Nat) : Prop :=
  C.counted → 0 < unread

variable (C) in
/-- The steps suffice for the unread tokens, four for each of them, and for some routines more, if
tokens are counted. -/
def Affords (fuel extra unread : Nat) : Prop :=
  C.counted → 4 * unread + extra ≤ fuel

namespace Affords

theorem mono {less fewer : Nat} (h : C.Affords fuel extra unread) (hextra : less ≤ extra)
    (hunread : fewer ≤ unread) : C.Affords fuel less fewer := by
  intro hcounted
  have hfuel := h hcounted
  omega

/-- The steps for a token that is taken are there for what comes behind it. -/
theorem pass (h : C.Affords fuel 0 unread) (hahead : C.Ahead unread) :
    C.Affords fuel 4 (unread - 1) := by
  intro hcounted
  have hfuel := h hcounted
  have hpos := hahead hcounted
  omega

/-- One step is made by going from a routine to those that it calls. -/
theorem step (h : C.Affords (fuel + 1) (extra + 1) unread) : C.Affords fuel extra unread := by
  intro hcounted
  have hfuel := h hcounted
  omega

theorem not_counted (h : C.Affords 0 (extra + 1) unread) : ¬C.counted := by
  intro hcounted
  have hfuel := h hcounted
  omega

theorem of_not_counted (h : ¬C.counted) : C.Affords fuel extra unread :=
  fun hcounted => absurd hcounted h

end Affords

/-- What only makes a value of another one. -/
theorem map {c d : Category} {t : ι} {a : ParserM σ c.Value} {b : ParserM τ c.Value}
    {f g : c.Value → d.Value} (hc : c.failsLate = false) (h : C.Relates c n s i a b)
    (hvalue : ∀ {j : ι} {v w : c.Value}, C.values.holds c s j v w →
      C.values.holds d t j (f v) (g w)) :
    C.Relates d n t i (a >>= fun v => Pure.pure (f v)) (b >>= fun w => Pure.pure (g w)) := by
  refine C.bind hc h fun _ hv => ?_
  exact C.pure (hvalue hv)

/-! ## Expressions -/

/-- Routines that are related as far as reading expressions goes; of statements, only blocks in
braces are read. The number of steps matters only if tokens are counted. -/
structure Reads (C : Congruence σ τ ι) (fuel : Nat) (r : Routines σ) (r' : Routines τ) : Prop where
  expression {n : Nat} {i : ι} (limit : Precedence) (h : C.Affords fuel 2 n) :
    C.Relates .expression n i i (r.expression limit) (r'.expression limit)
  operators {n : Nat} {s i : ι} (limit : Precedence) {left left' : Expression}
    (hleft : C.values.holds .operand s i left left') (h : C.Affords fuel 1 n) :
    C.Relates .operand n s i (r.operators limit left) (r'.operators limit left')
  parameters {n : Nat} {i : ι} (h : C.Affords fuel 1 n) :
    C.Relates .names n i i r.parameters r'.parameters
  arguments {n : Nat} {i : ι} (h : C.Affords fuel 1 n) :
    C.Relates .arguments n i i r.arguments r'.arguments
  braces {n : Nat} {i : ι} (h : C.Affords fuel 0 n) :
    C.Relates .block n i i (ParserM.expect .openCurly >>= fun _ => r.block)
      (ParserM.expect .openCurly >>= fun _ => r'.block)

namespace Reads

variable {r : Routines σ} {r' : Routines τ}

theorem unary (h : C.Reads fuel r r') (hn : C.Affords fuel 2 (n - 1)) :
    C.Relates .operand n i i r.unary r'.unary := by
  refine C.current fun operator => ?_
  refine C.advance ?_
  exact map rfl (h.expression .unary hn) fun hright => C.values.unary operator.text hright

theorem grouping (h : C.Reads fuel r r') (hn : C.Affords fuel 2 (n - 1)) :
    C.Relates .operand n i i r.grouping r'.grouping := by
  refine C.advance ?_
  refine C.bind rfl (h.expression .lowest hn) fun _ hinner => ?_
  refine C.expect nofun nofun fun _ => ?_
  exact C.pure (C.values.grouping hinner)

/-- A block in braces, and what is read behind it. -/
theorem bracesBind {c : Category} {t : ι} {f : List Statement → ParserM σ c.Value}
    {g : List Statement → ParserM τ c.Value} (h : C.Reads fuel r r') (hn : C.Affords fuel 0 n)
    (hnext : ∀ {m : Nat} {j : ι} {body body' : List Statement}, m ≤ n →
      C.values.holds .block i j body body' → C.Relates c m t j (f body) (g body')) :
    C.Relates c n t i (ParserM.expect .openCurly >>= fun _ => r.block >>= f)
      (ParserM.expect .openCurly >>= fun _ => r'.block >>= g) := by
  have hbind := C.bind rfl (h.braces hn) hnext
  rwa [bind_assoc, bind_assoc] at hbind

theorem alternative (h : C.Reads fuel r r') (hn : C.Affords fuel 0 n) :
    C.Relates .alternative n i i r.alternative r'.alternative := by
  refine C.ifPeek nofun (fun _ => ?_) (C.pure C.values.noAlternative)
  refine C.advance ?_
  refine h.bracesBind (hn.mono (Nat.le_refl 0) (Nat.sub_le n 1)) fun _ hbody => ?_
  exact C.pure (C.values.alternative hbody)

theorem conditional (h : C.Reads fuel r r') (hn : C.Affords fuel 0 n) :
    C.Relates .operand n i i r.conditional r'.conditional := by
  refine C.expect nofun nofun fun hahead => ?_
  refine C.advance ?_
  have hbehind := hn.pass hahead
  refine C.bind rfl (h.expression .lowest (hbehind.mono (by omega) (by omega)))
    fun hm hcondition => ?_
  refine C.expect nofun nofun fun _ => ?_
  refine h.bracesBind (hbehind.mono (Nat.zero_le 4) (by omega)) fun hl hconsequence => ?_
  refine map rfl (h.alternative (hbehind.mono (Nat.zero_le 4) (by omega))) fun halternative => ?_
  exact C.values.conditional hcondition hconsequence halternative

theorem parameterList (h : C.Reads fuel r r') (hn : C.Affords fuel 0 n) :
    C.Relates .names n i i r.parameterList r'.parameterList := by
  refine C.ifPeek nofun (fun _ => C.advance (C.pure C.values.noNames)) ?_
  refine C.expect nofun nofun fun hahead => ?_
  refine C.current fun first => ?_
  refine C.bind rfl (h.parameters ((hn.pass hahead).mono (by omega) (Nat.le_refl _)))
    fun _ hrest => ?_
  refine C.expect nofun nofun fun _ => ?_
  exact C.pure (C.values.name first.text hrest)

theorem parametersStep (h : C.Reads fuel r r') (hn : C.Affords fuel 0 n) :
    C.Relates .names n i i r.parametersStep r'.parametersStep := by
  refine C.ifPeek nofun (fun hahead => ?_) (C.pure C.values.noNames)
  refine C.advance ?_
  refine C.expect nofun nofun fun _ => ?_
  refine C.current fun name => ?_
  refine map rfl (h.parameters ((hn.pass hahead).mono (by omega) (by omega))) fun hrest => ?_
  exact C.values.name name.text hrest

theorem function (h : C.Reads fuel r r') (hn : C.Affords fuel 0 n) :
    C.Relates .operand n i i r.function r'.function := by
  refine C.expect nofun nofun fun _ => ?_
  have hlist := hn.mono (Nat.le_refl 0) (Nat.sub_le n 1)
  refine C.bind rfl (h.parameterList hlist) fun hm hparameters => ?_
  refine h.bracesBind (hlist.mono (Nat.le_refl 0) hm) fun _ hbody => ?_
  exact C.pure (C.values.function hparameters hbody)

theorem operandBy (h : C.Reads fuel r r') (hn : C.Affords fuel 0 n)
    (hbehind : C.Affords fuel 2 (n - 1)) (rule : OperandRule) :
    C.Relates .operand n i i (r.operandBy rule) (r'.operandBy rule) := by
  cases rule with
  | identifier => exact C.current fun token => C.pure (C.values.identifier token.text)
  | integer => exact C.integer
  | boolean => exact C.current fun token => C.pure (C.values.boolean (token.kind = .trueWord))
  | unary => exact h.unary hbehind
  | grouping => exact h.grouping hbehind
  | conditional => exact h.conditional hn
  | function => exact h.function hn

theorem binary (h : C.Reads fuel r r') (hn : C.Affords fuel 2 n) {left left' : Expression}
    (hleft : C.values.holds .operand s i left left') (precedence : Precedence) :
    C.Relates .operand n s i (r.binary left precedence) (r'.binary left' precedence) := by
  refine C.current fun operator => ?_
  refine C.advance ?_
  refine map rfl (h.expression precedence (hn.mono (Nat.le_refl 2) (Nat.sub_le n 1)))
    fun hright => ?_
  exact C.values.binary operator.text hleft hright

theorem argumentList (h : C.Reads fuel r r') (hn : C.Affords fuel 2 n) :
    C.Relates .arguments n i i r.argumentList r'.argumentList := by
  refine C.ifPeek nofun (fun _ => C.advance (C.pure C.values.noArguments)) ?_
  refine C.advance ?_
  refine C.bind rfl (h.expression .lowest (hn.mono (Nat.le_refl 2) (Nat.sub_le n 1)))
    fun hm hfirst => ?_
  refine C.bind rfl (h.arguments (hn.mono (by omega) (by omega))) fun _ hrest => ?_
  refine C.expect nofun nofun fun _ => ?_
  exact C.pure (C.values.argument hfirst hrest)

theorem argumentsStep (h : C.Reads fuel r r') (hn : C.Affords fuel 0 n) :
    C.Relates .arguments n i i r.argumentsStep r'.argumentsStep := by
  refine C.ifPeek nofun (fun hahead => ?_) (C.pure C.values.noArguments)
  refine C.advance ?_
  refine C.advance ?_
  have hbehind := hn.pass hahead
  refine C.bind rfl (h.expression .lowest (hbehind.mono (by omega) (by omega)))
    fun hm hfirst => ?_
  refine map rfl (h.arguments (hbehind.mono (by omega) (by omega))) fun hrest => ?_
  exact C.values.argument hfirst hrest

theorem operatorBy (h : C.Reads fuel r r') (hn : C.Affords fuel 2 n) {left left' : Expression}
    (hleft : C.values.holds .operand s i left left') (precedence : Precedence)
    (rule : OperatorRule) :
    C.Relates .operand n s i (r.operatorBy left precedence rule)
      (r'.operatorBy left' precedence rule) := by
  cases rule with
  | binary => exact h.binary hn hleft precedence
  | call => exact map rfl (h.argumentList hn) fun harguments => C.values.call hleft harguments

theorem operation (h : C.Reads fuel r r') (hn : C.Affords fuel 1 n) (limit : Precedence) :
    C.Relates .operand n i i (r.operation limit) (r'.operation limit) := by
  rw [r.operation_eq, r'.operation_eq]
  refine C.byOperand fun rule hahead => ?_
  have htoken := hn.mono (Nat.zero_le 1) (Nat.le_refl n)
  have hbehind : C.Affords fuel 2 (n - 1) := (htoken.pass hahead).mono (by omega) (Nat.le_refl _)
  have hoperand := h.operandBy (i := i) htoken hbehind rule
  exact C.bind rfl hoperand fun hm hleft =>
    h.operators limit hleft (hn.mono (Nat.le_refl 1) hm)

theorem expressionStep (h : C.Reads fuel r r') (hn : C.Affords (fuel + 1) 2 n)
    (limit : Precedence) :
    C.Relates .expression n i i (r.expressionStep limit) (r'.expressionStep limit) :=
  C.nested (h.operation hn.step limit)

theorem operatorsStep (h : C.Reads fuel r r') (hn : C.Affords (fuel + 1) 1 n)
    {left left' : Expression} (hleft : C.values.holds .operand s i left left')
    (limit : Precedence) :
    C.Relates .operand n s i (r.operatorsStep limit left) (r'.operatorsStep limit left') := by
  rw [r.operatorsStep_eq, r'.operatorsStep_eq]
  refine C.byOperator hleft fun precedence rule hahead => ?_
  have hbehind := hn.step.pass hahead
  unfold Routines.operatorRound
  rw [bind_assoc, bind_assoc]
  refine C.advance ?_
  have hoperator := h.operatorBy (hbehind.mono (by omega) (Nat.le_refl _)) hleft precedence rule
  exact C.bind rfl hoperator fun hm hleft => h.operators limit hleft (hbehind.mono (by omega) hm)

/-! ## Statements -/

theorem statementValue (h : C.Reads fuel r r') (hn : C.Affords fuel 2 n) :
    C.Relates .value n i i r.statementValue r'.statementValue :=
  C.statementValue (h.expression .lowest hn)

theorem letBinding (h : C.Reads fuel r r') (hn : C.Affords fuel 2 n) :
    C.Relates .statement n i i r.letBinding r'.letBinding := by
  refine C.expect nofun nofun fun _ => ?_
  refine C.current fun name => ?_
  refine C.expect nofun nofun fun _ => ?_
  refine C.advance ?_
  refine C.ofValue (h.statementValue (hn.mono (Nat.le_refl 2) (by omega))) fun hvalue => ?_
  exact C.values.letBinding name.text hvalue

theorem returning (h : C.Reads fuel r r') (hn : C.Affords fuel 2 n) :
    C.Relates .statement n i i r.returning r'.returning := by
  refine C.advance ?_
  exact C.ofValue (h.statementValue (hn.mono (Nat.le_refl 2) (Nat.sub_le n 1))) C.values.returning

theorem expressionStatement (h : C.Reads fuel r r') (hn : C.Affords fuel 2 n) :
    C.Relates .statement n i i r.expressionStatement r'.expressionStatement :=
  C.ofValue (h.statementValue hn) C.values.expressionStatement

end Reads

/-- Routines that are related, those for statements too. -/
structure Keeps (C : Congruence σ τ ι) (fuel : Nat) (r : Routines σ) (r' : Routines τ) : Prop
    extends C.Reads fuel r r' where
  statement {n : Nat} {i : ι} (h : C.Affords fuel 3 n) :
    C.Relates .statement n i i r.statement r'.statement
  statements {n : Nat} {i : ι} (region : Region) (h : C.Affords fuel 4 n) :
    C.Relates .block n i i (r.statements region) (r'.statements region)

variable {r : Routines σ} {r' : Routines τ}

/-- A block in braces is read if its statements are. -/
theorem StatementRules.braces (hC : C.StatementRules)
    (h : ∀ {n : Nat} {i : ι}, C.Affords fuel 4 n →
      C.Relates .block n i i (r.statements .block) (r'.statements .block))
    (hn : C.Affords fuel 0 n) :
    C.Relates .block n i i (ParserM.expect .openCurly >>= fun _ => r.block)
      (ParserM.expect .openCurly >>= fun _ => r'.block) := by
  refine C.expect nofun nofun fun hahead => ?_
  refine hC.announceBlock ?_
  refine C.advance ?_
  exact h ((hn.pass hahead).mono (Nat.le_refl 4) (Nat.sub_le _ 1))

namespace Keeps

theorem block (h : C.Keeps fuel r r') (hC : C.StatementRules) (hn : C.Affords fuel 4 (n - 1)) :
    C.Relates .block n i i r.block r'.block := by
  refine hC.announceBlock ?_
  exact C.advance (h.statements .block hn)

theorem statementBy (h : C.Keeps fuel r r') (hC : C.StatementRules) (hn : C.Affords fuel 2 n)
    {rule : StatementRule} (hlookup : rule = .lookup → C.Affords fuel 3 n)
    (hblock : rule = .block → C.Affords fuel 4 (n - 1)) :
    C.Relates .statement n i i (r.statementBy rule) (r'.statementBy rule) := by
  cases rule with
  | lookup => exact h.statement (hlookup rfl)
  | letBinding => exact h.letBinding hn
  | returning => exact h.returning hn
  | expression => exact h.expressionStatement hn
  | block => exact map rfl (h.block hC (hblock rfl)) C.values.block

theorem statementStep (h : C.Keeps fuel r r') (hC : C.StatementRules)
    (hn : C.Affords (fuel + 1) 3 n) :
    C.Relates .statement n i i r.statementStep r'.statementStep := by
  rw [r.statementStep_eq, r'.statementStep_eq]
  refine hC.byStatement fun rule? hrule => ?_
  cases rule? with
  | none => exact h.expressionStatement hn.step
  | some rule =>
    have hahead : C.Ahead n := fun hcounted => (hrule rule rfl hcounted).1
    refine h.statementBy hC hn.step (fun hlookup hcounted => ?_) fun _ => ?_
    · exact absurd hlookup (hrule rule rfl hcounted).2
    · exact (hn.step.mono (Nat.zero_le 2) (Nat.le_refl n)).pass hahead

theorem statementsStep (h : C.Keeps fuel r r') (hC : C.StatementRules)
    (hn : C.Affords (fuel + 1) 4 n) (region : Region) :
    C.Relates .block n i i (r.statementsStep region) (r'.statementsStep region) := by
  rw [r.statementsStep_eq, r'.statementsStep_eq]
  refine hC.unlessOver fun hahead => ?_
  unfold Routines.statementRound
  simp only [bind_assoc, pure_bind]
  refine C.bind rfl (hC.attempt (h.statement hn.step)) fun hm hfirst => ?_
  refine C.advance ?_
  have hbehind := (hn.step.mono (Nat.zero_le 3) (Nat.le_refl n)).pass hahead
  refine map rfl (h.statements region (hbehind.mono (Nat.le_refl 4) (by omega))) fun hrest => ?_
  exact C.values.statements hfirst hrest

/-- What is said of the routines without any steps left. -/
theorem stuck (hC : C.StatementRules) : C.Keeps 0 .stuck .stuck where
  expression _ hn := C.stuck hn.not_counted
  operators _ _ _ _ hn := C.stuck hn.not_counted
  parameters hn := C.stuck hn.not_counted
  arguments hn := C.stuck hn.not_counted
  braces hn := hC.braces (fun hn => C.stuck hn.not_counted) hn
  statement hn := C.stuck hn.not_counted
  statements _ hn := C.stuck hn.not_counted

/-- One step more. -/
theorem succ (h : C.Keeps fuel r r') (hC : C.StatementRules) :
    C.Keeps (fuel + 1) r.step r'.step where
  expression limit hn := h.expressionStep hn limit
  operators limit _ _ hleft hn := h.operatorsStep hn hleft limit
  parameters hn := h.parametersStep hn.step
  arguments hn := h.argumentsStep hn.step
  braces hn := hC.braces (h.statementsStep hC · .block) hn
  statement hn := h.statementStep hC hn
  statements region hn := h.statementsStep hC hn region

end Keeps

/-- Any number of steps on both sides, if it can be said with none for the first routines. -/
theorem keeps_add (C : Congruence σ τ ι) (hC : C.StatementRules) {more : Nat}
    (h : C.Keeps 0 (routines 0) (routines more)) (fuel : Nat) :
    C.Keeps fuel (routines fuel) (routines (more + fuel)) := by
  induction fuel with
  | zero => exact h
  | succ fuel ih =>
    rw [← Nat.add_assoc, routines_succ, routines_succ]
    exact ih.succ hC

/-- What is said of all routines, with any number of steps. -/
theorem keeps_routines (C : Congruence σ τ ι) (hC : C.StatementRules) (fuel : Nat) :
    C.Keeps fuel (routines fuel) (routines fuel) := by
  have hstuck : C.Keeps 0 (routines 0) (routines 0) := .stuck hC
  have hfuel := C.keeps_add hC hstuck fuel
  rwa [Nat.zero_add] at hfuel

end Congruence

/-! ## Congruences by rules for single actions -/

/-- Two parsers that see the same tokens and go by the same tables. -/
structure Parser.LooksLike (p : Parser σ) (q : Parser τ) : Prop where
  current : p.current = q.current
  peek : p.peek = q.peek
  tables : p.tables = q.tables

omit [TokenSource σ] in
theorem Parser.LooksLike.refl (p : Parser σ) : p.LooksLike p :=
  ⟨rfl, rfl, rfl⟩

/-- What can be said of two actions whatever is unread, by the rules for single actions. Two parsers
that run them side by side look alike, so both look up the same rule. -/
structure ActionRules (σ τ ι : Type) [TokenSource σ] [TokenSource τ] where
  values : Correspondence ι
  /-- the index one level of nesting further in -/
  inner : ι → ι
  Relates (c : Category) (s i : ι) : ParserM σ c.Value → ParserM τ c.Value → Prop
  stuck {c : Category} {s i : ι} : Relates c s i ParserM.stuck ParserM.stuck
  pure {c : Category} {s i : ι} {v w : c.Value} : values.holds c s i v w →
    Relates c s i (Pure.pure v) (Pure.pure w)
  bind {c d : Category} {s t i : ι} {a : ParserM σ c.Value} {b : ParserM τ c.Value}
    {f : c.Value → ParserM σ d.Value} {g : c.Value → ParserM τ d.Value} :
    c.failsLate = false → Relates c s i a b →
    (∀ {j : ι} {v w : c.Value}, values.holds c s j v w → Relates d t j (f v) (g w)) →
    Relates d t i (a >>= f) (b >>= g)
  get {c : Category} {s i : ι} {f : Parser σ → ParserM σ c.Value}
    {g : Parser τ → ParserM τ c.Value} :
    (∀ p q, p.LooksLike q → Relates c s i (f p) (g q)) →
    Relates c s i (ParserM.get >>= f) (ParserM.get >>= g)
  announce {c : Category} {s i : ι} {event : Event} {a : ParserM σ c.Value}
    {b : ParserM τ c.Value} : (∀ kind, event ≠ .statement kind) → Relates c s i a b →
    Relates c s i (ParserM.announce event >>= fun _ => a) (ParserM.announce event >>= fun _ => b)
  advance {c : Category} {s i : ι} {f : Unit → ParserM σ c.Value}
    {g : Unit → ParserM τ c.Value} : Relates c s i (f ()) (g ()) →
    Relates c s i (ParserM.advance >>= f) (ParserM.advance >>= g)
  expect {c : Category} {s i : ι} {kind : TokenKind} {f : Unit → ParserM σ c.Value}
    {g : Unit → ParserM τ c.Value} : kind ≠ .semicolon → Relates c s i (f ()) (g ()) →
    Relates c s i (ParserM.expect kind >>= f) (ParserM.expect kind >>= g)
  /-- No rule was found for the current token as an operand. -/
  missing {s i : ι} (kind : TokenKind) :
    Relates .operand s i (ParserM.fail (.missingOperand kind)) (ParserM.fail (.missingOperand kind))
  ite {c : Category} {s i : ι} {P : Prop} [Decidable P] {a a' : ParserM σ c.Value}
    {b b' : ParserM τ c.Value} : Relates c s i a b → Relates c s i a' b' →
    Relates c s i (if P then a else a') (if P then b else b')
  nested {i : ι} {a : ParserM σ Expression} {b : ParserM τ Expression} :
    Relates .operand (inner i) (inner i) a b →
    Relates .expression i i (ParserM.nested a) (ParserM.nested b)
  integer {i : ι} : Relates .operand i i integerOperand integerOperand
  /-- The end of a statement is looked for whether its value could be read or not. -/
  statementValue {i : ι} {a : ParserM σ Expression} {b : ParserM τ Expression} :
    Relates .expression i i a b →
    Relates .value i i (ParserM.attempt a >>= finishStatement)
      (ParserM.attempt b >>= finishStatement)
  ofValue {i : ι} {a : ParserM σ Expression} {b : ParserM τ Expression}
    {f g : Expression → Statement} : Relates .value i i a b →
    (∀ {j : ι} {v w : Expression}, values.holds .value i j v w →
      values.holds .statement i j (f v) (g w)) →
    Relates .statement i i (a >>= fun v => Pure.pure (f v)) (b >>= fun w => Pure.pure (g w))

namespace ActionRules

variable (A : ActionRules σ τ ι) {c : Category} {s i : ι}

theorem current {f : Token → ParserM σ c.Value} {g : Token → ParserM τ c.Value}
    (h : ∀ token, A.Relates c s i (f token) (g token)) :
    A.Relates c s i (ParserM.current >>= f) (ParserM.current >>= g) := by
  have hget : A.Relates c s i (ParserM.get >>= fun p => f p.current)
      (ParserM.get >>= fun q => g q.current) := by
    refine A.get fun p q hlooks => ?_
    rw [hlooks.current]
    exact h q.current
  exact hget

theorem ifPeek {kind : TokenKind} {a a' : ParserM σ c.Value} {b b' : ParserM τ c.Value}
    (h : A.Relates c s i a b) (h' : A.Relates c s i a' b') :
    A.Relates c s i (ParserM.peekIs kind >>= fun there => if there = true then a else a')
      (ParserM.peekIs kind >>= fun there => if there = true then b else b') := by
  have hget : A.Relates c s i
      (ParserM.get >>= fun p => if decide (p.peek.kind = kind) = true then a else a')
      (ParserM.get >>= fun q => if decide (q.peek.kind = kind) = true then b else b') := by
    refine A.get fun p q hlooks => ?_
    rw [hlooks.peek]
    exact A.ite h h'
  exact hget

theorem byOperand {limit : Precedence} {f : OperandRule → ParserM σ Expression}
    {g : OperandRule → ParserM τ Expression}
    (h : ∀ rule, A.Relates .operand i i (f rule) (g rule)) :
    A.Relates .operand i i (ParserM.byOperand limit f) (ParserM.byOperand limit g) := by
  refine A.get fun p q hlooks => ?_
  rw [hlooks.current, hlooks.tables]
  refine A.announce (fun _ hevent => by cases hevent) ?_
  cases q.tables.operand? q.current.kind with
  | none => exact A.missing q.current.kind
  | some rule => exact h rule

theorem byOperator {limit : Precedence} {left left' : Expression}
    {f : Precedence → OperatorRule → ParserM σ Expression}
    {g : Precedence → OperatorRule → ParserM τ Expression}
    (hleft : A.values.holds .operand s i left left')
    (h : ∀ precedence rule, A.Relates .operand s i (f precedence rule) (g precedence rule)) :
    A.Relates .operand s i (ParserM.byOperator limit left f)
      (ParserM.byOperator limit left' g) := by
  refine A.get fun p q hlooks => ?_
  rw [hlooks.peek, hlooks.tables]
  cases q.tables.operator? q.peek.kind with
  | none => exact A.pure hleft
  | some entry => exact A.ite (h entry.1 entry.2) (A.pure hleft)

/-- The congruence by rules for single actions. -/
def congruence : Congruence σ τ ι where
  values := A.values
  inner := A.inner
  counted := False
  Relates c _ s i a b := A.Relates c s i a b
  stuck _ := A.stuck
  pure h := A.pure h
  bind hc h hnext := A.bind hc h fun hvalue => hnext (Nat.le_refl _) hvalue
  current h := A.current h
  advance h := A.advance h
  expect _ hkind h := A.expect hkind (h False.elim)
  ifPeek _ h h' := A.ifPeek (h False.elim) h'
  nested h := A.nested h
  integer := A.integer
  byOperand h := A.byOperand fun rule => h rule False.elim
  byOperator hleft h := A.byOperator hleft fun precedence rule => h precedence rule False.elim
  statementValue h := A.statementValue h
  ofValue h hvalue := A.ofValue h hvalue

theorem affords {fuel extra unread : Nat} : A.congruence.Affords fuel extra unread :=
  .of_not_counted not_false

/-- Statements are also announced, and attempted. -/
theorem statementRules
    (hannounce : ∀ {i : ι} {kind : TokenKind} {a : ParserM σ Statement} {b : ParserM τ Statement},
      A.Relates .statement i i a b →
      A.Relates .statement i i (ParserM.announce (.statement kind) >>= fun _ => a)
        (ParserM.announce (.statement kind) >>= fun _ => b))
    (hattempt : ∀ {i : ι} {a : ParserM σ Statement} {b : ParserM τ Statement},
      A.Relates .statement i i a b →
      A.Relates .attempt i i (ParserM.attempt a) (ParserM.attempt b)) :
    A.congruence.StatementRules where
  announceBlock h := A.announce (fun _ hevent => by cases hevent) h
  byStatement h := by
    refine A.get fun p q hlooks => ?_
    rw [hlooks.current, hlooks.tables]
    exact hannounce (h _ fun _ _ => False.elim)
  unlessOver h := by
    refine A.current fun _ => A.ite ?_ (h False.elim)
    exact A.pure A.values.noStatements
  attempt h := hattempt h

end ActionRules

end Monkey
