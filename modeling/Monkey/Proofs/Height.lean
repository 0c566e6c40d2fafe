import Monkey.Proofs.RoundTrip

/-!
# How high trees become

The parser counts the expressions it is inside of, and that count is limited. A tree grows in two
ways: an operand, an argument or a block is read further in and costs a level, but what stands on
the left of an operator or of arguments has been read by then and is only wrapped. So the limit
bounds the levels of every tree that a parse returns, whatever is wrong with the source
(`levels_le_of_parse`); keeping within it is a congruence whose index is the depth (`limiting`). The
height of a tree it bounds only up to the number of steps to the left (`Expression.path_add_le`): a
long sum has two levels and any height (`parse_sumText`).
-/

namespace Monkey

open ParserM

/-! ## Paths through a tree -/

mutual

/-- The greatest weight of a path from an expression down to a leaf, through blocks as well: a step
to a left operand or to a callee weighs `left`, any other step `right`, and so does the leaf. -/
def Expression.path (left right : Nat) : Expression → Nat
  | .identifier _ => right
  | .integer _ _ => right
  | .boolean _ => right
  | .unary _ operand => right + operand.path left right
  | .binary first _ second => max (left + first.path left right) (right + second.path left right)
  | .conditional condition consequence alternative =>
    right + max (condition.path left right)
      (max (pathBlock left right consequence) (pathAlternative left right alternative))
  | .function _ body => right + pathBlock left right body
  | .call callee arguments =>
    max (left + callee.path left right) (right + pathEach left right arguments)

/-- The greatest weight of a path from the value of a statement down to a leaf. -/
def Statement.path (left right : Nat) : Statement → Nat
  | .letBinding _ value => value.path left right
  | .returning value => value.path left right
  | .expression value => value.path left right
  | .block body => pathBlock left right body

def pathBlock (left right : Nat) : List Statement → Nat
  | [] => 0
  | statement :: body => max (statement.path left right) (pathBlock left right body)

def pathAlternative (left right : Nat) : Option (List Statement) → Nat
  | none => 0
  | some body => pathBlock left right body

def pathEach (left right : Nat) : List Expression → Nat
  | [] => 0
  | expression :: rest => max (expression.path left right) (pathEach left right rest)

end

/-- The largest number of expressions on a path from an expression down to a leaf. -/
def Expression.height (e : Expression) : Nat :=
  e.path 1 1

/-- The largest number of expressions on a path from the value of a statement down to a leaf. -/
def Statement.height (s : Statement) : Nat :=
  s.path 1 1

/-- The height of a statement's value if steps to the left are not counted. -/
def Statement.levels (s : Statement) : Nat :=
  s.path 0 1

/-- The largest number of steps to the left on a path through a statement's value. -/
def Statement.leftSteps (s : Statement) : Nat :=
  s.path 1 0

mutual

/-- A path is no heavier under the sum of two weightings than under both together. -/
theorem Expression.path_add_le (a b c d : Nat) : (e : Expression) →
    e.path (a + b) (c + d) ≤ e.path a c + e.path b d
  | .identifier _ => Nat.le_refl _
  | .integer _ _ => Nat.le_refl _
  | .boolean _ => Nat.le_refl _
  | .unary _ operand => by
    have := operand.path_add_le a b c d
    simp only [Expression.path]
    omega
  | .binary first _ second => by
    have := first.path_add_le a b c d
    have := second.path_add_le a b c d
    simp only [Expression.path]
    omega
  | .conditional condition consequence alternative => by
    have := condition.path_add_le a b c d
    have := pathBlock_add_le a b c d consequence
    have := pathAlternative_add_le a b c d alternative
    simp only [Expression.path]
    omega
  | .function _ body => by
    have := pathBlock_add_le a b c d body
    simp only [Expression.path]
    omega
  | .call callee arguments => by
    have := callee.path_add_le a b c d
    have := pathEach_add_le a b c d arguments
    simp only [Expression.path]
    omega

theorem Statement.path_add_le (a b c d : Nat) : (s : Statement) →
    s.path (a + b) (c + d) ≤ s.path a c + s.path b d
  | .letBinding _ value => value.path_add_le a b c d
  | .returning value => value.path_add_le a b c d
  | .expression value => value.path_add_le a b c d
  | .block body => pathBlock_add_le a b c d body

theorem pathBlock_add_le (a b c d : Nat) : (body : List Statement) →
    pathBlock (a + b) (c + d) body ≤ pathBlock a c body + pathBlock b d body
  | [] => Nat.le_refl _
  | statement :: body => by
    have := statement.path_add_le a b c d
    have := pathBlock_add_le a b c d body
    simp only [pathBlock]
    omega

theorem pathAlternative_add_le (a b c d : Nat) : (body : Option (List Statement)) →
    pathAlternative (a + b) (c + d) body ≤ pathAlternative a c body + pathAlternative b d body
  | none => Nat.le_refl _
  | some body => pathBlock_add_le a b c d body

theorem pathEach_add_le (a b c d : Nat) : (expressions : List Expression) →
    pathEach (a + b) (c + d) expressions ≤ pathEach a c expressions + pathEach b d expressions
  | [] => Nat.le_refl _
  | expression :: rest => by
    have := expression.path_add_le a b c d
    have := pathEach_add_le a b c d rest
    simp only [pathEach]
    omega

end

/-- A statement is no higher than its levels and its steps to the left together. -/
theorem Statement.height_le (s : Statement) : s.height ≤ s.levels + s.leftSteps :=
  s.path_add_le 0 1 1 0

theorem path_le_pathBlock {left right : Nat} {s : Statement} {body : List Statement}
    (h : s ∈ body) : s.path left right ≤ pathBlock left right body := by
  induction body with
  | nil => cases h
  | cons statement body ih =>
    rw [pathBlock]
    rcases List.mem_cons.1 h with rfl | h
    · exact Nat.le_max_left _ _
    · exact Nat.le_trans (ih h) (Nat.le_max_right _ _)

/-! ## Values at a depth -/

variable {σ α β : Type} [TokenSource σ]

/-- An outcome that leaves a parser at a depth, its value a good one. -/
def Outcome.YieldsAt (depth : Nat) (good : α → Prop) : Outcome σ α → Prop
  | ok value after => after.depth = depth ∧ good value
  | absent after => after.depth = depth
  | stuck => True

/-- An action that, started at a depth, ends there and comes out with good values only. -/
def ParserM.YieldsAt (depth : Nat) (good : α → Prop) (action : ParserM σ α) : Prop :=
  ∀ parser : Parser σ, parser.depth = depth → (action.run parser).YieldsAt depth good

namespace ParserM.YieldsAt

variable {depth : Nat} {good : α → Prop}

theorem of_framed {action : ParserM σ α} (h : action.Framed) :
    action.YieldsAt depth fun _ => True := by
  intro parser hdepth
  have hframed := h parser
  cases hrun : action.run parser with
  | ok value after => rw [hrun] at hframed; exact ⟨hframed.depth.trans hdepth, trivial⟩
  | absent after => rw [hrun] at hframed; exact hframed.1.depth.trans hdepth
  | stuck => trivial

omit [TokenSource σ] in
theorem pure {value : α} (h : good value) : (Pure.pure value : ParserM σ α).YieldsAt depth good :=
  fun _ hdepth => ⟨hdepth, h⟩

omit [TokenSource σ] in
theorem bind {action : ParserM σ α} {next : α → ParserM σ β} {best : β → Prop}
    (h : action.YieldsAt depth good)
    (hnext : ∀ value, good value → (next value).YieldsAt depth best) :
    (action >>= next).YieldsAt depth best := by
  intro parser hdepth
  have hfirst := h parser hdepth
  rw [run_bind]
  cases hrun : action.run parser with
  | ok value after => rw [hrun] at hfirst; exact hnext value hfirst.2 after hfirst.1
  | absent after => rw [hrun] at hfirst; exact hfirst
  | stuck => trivial

/-- What comes first has a value that does not matter. -/
theorem andThen {action : ParserM σ β} {next : β → ParserM σ α} (h : action.Framed)
    (hnext : ∀ value, (next value).YieldsAt depth good) : (action >>= next).YieldsAt depth good :=
  (of_framed h).bind fun value _ => hnext value

omit [TokenSource σ] in
theorem attempt {action : ParserM σ α} (h : action.YieldsAt depth good) :
    (ParserM.attempt action).YieldsAt depth fun value? => ∀ value ∈ value?, good value := by
  intro parser hdepth
  have hrun := h parser hdepth
  rw [run_attempt]
  cases hout : action.run parser with
  | ok value after =>
    rw [hout] at hrun
    refine ⟨hrun.1, ?_⟩
    rintro _ ⟨⟩
    exact hrun.2
  | absent after => rw [hout] at hrun; exact ⟨hrun, fun _ hmem => by cases hmem⟩
  | stuck => trivial

omit [TokenSource σ] in
/-- One level further in, if there is one. -/
theorem nested {action : ParserM σ α}
    (h : depth < maxNesting → action.YieldsAt (depth + 1) good) :
    (ParserM.nested action).YieldsAt depth good := by
  rintro parser rfl
  rw [run_nested]
  by_cases hdepth : parser.depth < maxNesting
  · rw [if_pos hdepth]
    have hrun := h hdepth { parser with depth := parser.depth + 1 } rfl
    cases hout : action.run { parser with depth := parser.depth + 1 } with
    | ok value after =>
      rw [hout] at hrun
      refine ⟨?_, hrun.2⟩
      rw [Parser.leaveNesting, hrun.1]
      rfl
    | absent after =>
      rw [hout] at hrun
      show after.depth - 1 = parser.depth
      rw [show after.depth = parser.depth + 1 from hrun]
      rfl
    | stuck => trivial
  · rw [if_neg hdepth]
    rfl

omit [TokenSource σ] in
theorem ite {c : Prop} [Decidable c] {a b : ParserM σ α} (ha : a.YieldsAt depth good)
    (hb : b.YieldsAt depth good) : (if c then a else b).YieldsAt depth good := by
  split
  next => exact ha
  next => exact hb

omit [TokenSource σ] in
theorem mono {better : α → Prop} {action : ParserM σ α} (h : action.YieldsAt depth better)
    (himp : ∀ value, better value → good value) : action.YieldsAt depth good := by
  intro parser hdepth
  have hrun := h parser hdepth
  cases hout : action.run parser with
  | ok value after => rw [hout] at hrun; exact ⟨hrun.1, himp value hrun.2⟩
  | absent after => rw [hout] at hrun; exact hrun
  | stuck => trivial

end ParserM.YieldsAt

theorem yieldsAt_finishStatement {depth : Nat} {good : Expression → Prop}
    {value? : Option Expression} (h : ∀ value ∈ value?, good value) :
    (finishStatement value? : ParserM σ Expression).YieldsAt depth good := by
  have hvalue : (ofOption value? : ParserM σ Expression).YieldsAt depth good := by
    cases value? with
    | some value => exact .pure (h value rfl)
    | none => exact fun _ hdepth => hdepth
  refine .andThen (.peekIs .semicolon) fun there => .ite ?_ ?_
  · exact .andThen .advance fun _ => hvalue
  · refine hvalue.bind fun value hgood => .andThen .get fun parser => .ite (.pure hgood) ?_
    exact .andThen (.expect .semicolon) fun _ => .pure hgood

omit [TokenSource σ] in
theorem yieldsAt_integerOperand {depth : Nat} {good : Expression → Prop}
    (h : ∀ value literal, good (.integer value literal)) :
    (integerOperand : ParserM σ Expression).YieldsAt depth good := by
  intro parser hparser
  change (integerOperand parser).YieldsAt depth _
  unfold integerOperand
  split
  next => exact ⟨hparser, h _ _⟩
  next => exact ⟨hparser, h _ _⟩

/-! ## Levels within the limit -/

/-- The levels of what is read, by its category. -/
def Category.levels : (category : Category) → category.Value → Nat
  | names, _ => 0
  | expression, e => e.path 0 1
  | operand, e => e.path 0 1
  | value, e => e.path 0 1
  | statement, s => s.path 0 1
  | attempt, s? => pathBlock 0 1 s?.toList
  | block, body => pathBlock 0 1 body
  | alternative, body? => pathAlternative 0 1 body?
  | arguments, expressions => pathEach 0 1 expressions

/-- An operand counts as the expression around it that the level was entered for. -/
def Category.entered : Category → Nat
  | operand => 1
  | _ => 0

theorem pathBlock_append (left right : Nat) (front back : List Statement) :
    pathBlock left right (front ++ back) =
      max (pathBlock left right front) (pathBlock left right back) := by
  induction front with
  | nil => exact (Nat.zero_max _).symm
  | cons statement front ih =>
    rw [List.cons_append, pathBlock, pathBlock, ih, Nat.max_assoc]

/-- The index is the depth. Reading ends on the depth it starts at, with a value that has no more
levels than there are left at it. -/
def withinLimit : Correspondence Nat where
  holds category i j value _ :=
    j = i ∧ (i ≤ maxNesting → i + category.levels value ≤ maxNesting + category.entered)
  noNames := ⟨rfl, id⟩
  name _ h := h
  identifier _ := ⟨rfl, Nat.succ_le_succ⟩
  boolean _ := ⟨rfl, Nat.succ_le_succ⟩
  unary := by
    rintro i _ e _ _ ⟨rfl, h⟩
    refine ⟨rfl, fun hi => ?_⟩
    have he := h hi
    simp only [Category.levels, Category.entered, Expression.path] at he ⊢
    omega
  grouping := by
    rintro i _ e _ ⟨rfl, h⟩
    exact ⟨rfl, fun hi => Nat.le_succ_of_le (h hi)⟩
  conditional := by
    rintro i _ _ _ c _ b _ a _ ⟨rfl, hc⟩ ⟨rfl, hb⟩ ⟨rfl, ha⟩
    refine ⟨rfl, fun hi => ?_⟩
    have hc := hc hi
    have hb := hb hi
    have ha := ha hi
    simp only [Category.levels, Category.entered, Expression.path] at hc hb ha ⊢
    omega
  function := by
    rintro i _ _ n _ b _ ⟨rfl, -⟩ ⟨rfl, hb⟩
    refine ⟨rfl, fun hi => ?_⟩
    have hb := hb hi
    simp only [Category.levels, Category.entered, Expression.path] at hb ⊢
    omega
  binary := by
    rintro i _ _ l _ r _ _ ⟨rfl, hl⟩ ⟨rfl, hr⟩
    refine ⟨rfl, fun hi => ?_⟩
    have hl := hl hi
    have hr := hr hi
    simp only [Category.levels, Category.entered, Expression.path] at hl hr ⊢
    omega
  call := by
    rintro i _ _ c _ a _ ⟨rfl, hc⟩ ⟨rfl, ha⟩
    refine ⟨rfl, fun hi => ?_⟩
    have hc := hc hi
    have ha := ha hi
    simp only [Category.levels, Category.entered, Expression.path] at hc ha ⊢
    omega
  noArguments := ⟨rfl, id⟩
  argument := by
    rintro i _ _ e _ rest _ ⟨rfl, he⟩ ⟨rfl, hrest⟩
    refine ⟨rfl, fun hi => ?_⟩
    have he := he hi
    have hrest := hrest hi
    simp only [Category.levels, Category.entered, pathEach] at he hrest ⊢
    omega
  noAlternative := ⟨rfl, id⟩
  alternative h := h
  letBinding _ h := h
  returning h := h
  expressionStatement h := h
  block h := h
  noStatements := ⟨rfl, id⟩
  statements := by
    rintro i _ _ first _ rest _ ⟨rfl, hfirst⟩ ⟨rfl, hrest⟩
    refine ⟨rfl, fun hi => ?_⟩
    have hfirst := hfirst hi
    have hrest := hrest hi
    simp only [Category.levels, Category.entered, pathBlock_append] at hfirst hrest ⊢
    omega

/-- Keeping within the limit by rules for single actions, about one action. -/
def limitingRules (σ : Type) [TokenSource σ] : ActionRules σ σ Nat where
  values := withinLimit
  inner depth := depth + 1
  Relates c s i a _ := a.YieldsAt i fun value => withinLimit.holds c s i value value
  stuck _ _ := trivial
  pure h := .pure h
  bind _ h hnext := h.bind fun value hvalue => hnext (w := value) hvalue
  get h := .andThen .get fun parser => h parser parser (.refl parser)
  announce _ h := .andThen (.announce _) fun _ => h
  advance h := .andThen .advance fun _ => h
  expect _ h := .andThen (.expect _) fun _ => h
  missing _ _ hparser := hparser
  ite h h' := h.ite h'
  nested := by
    intro i a _ h
    refine .nested fun hdepth => h.mono fun e he => ⟨rfl, fun _ => ?_⟩
    have hlevels := he.2 hdepth
    simp only [Category.levels, Category.entered] at hlevels ⊢
    omega
  integer := yieldsAt_integerOperand fun _ _ => ⟨rfl, Nat.succ_le_succ⟩
  statementValue h := h.attempt.bind fun _ hvalue => yieldsAt_finishStatement hvalue
  ofValue h hvalue := h.bind fun value hgood => .pure (hvalue (w := value) hgood)

/-- Keeping within the limit, as a congruence. -/
def limiting (σ : Type) [TokenSource σ] : Congruence σ σ Nat :=
  (limitingRules σ).congruence

theorem limiting_statementRules : (limiting σ).StatementRules := by
  refine (limitingRules σ).statementRules (fun h => .andThen (.announce _) fun _ => h) ?_
  intro i a _ h
  refine h.attempt.mono fun s? hs? => ?_
  cases s? with
  | none => exact ⟨rfl, id⟩
  | some s =>
    obtain ⟨-, hs⟩ := hs? s rfl
    refine ⟨rfl, fun hi => ?_⟩
    have hs := hs hi
    simp only [Category.levels, Category.entered, Option.toList, pathBlock] at hs ⊢
    omega

/-- With any number of steps, values have no more levels than there are left. -/
theorem routines_withinLimit (fuel : Nat) :
    (limiting σ).Keeps fuel (routines fuel : Routines σ) (routines fuel) :=
  (limiting σ).keeps_routines limiting_statementRules fuel

/-- Whatever is wrong with the input, no statement of a program has more levels than the limit. -/
theorem levels_le_of_parse (supply : σ) (options : Options) {s : Statement}
    (h : s ∈ (parse supply options).program.statements) : s.levels ≤ maxNesting := by
  obtain ⟨statements, after, hrun, hprogram, -⟩ := parse_eq_of_statements supply options
  have hroutines := routines_withinLimit (σ := σ) (Parser.ofSupply supply options).steps
  have hstatements := hroutines.statements (n := 0) (i := 0) .program (.of_not_counted not_false)
  have hyields := hstatements
    (((Parser.ofSupply supply options).write .openedProgram).write .entered) rfl
  rw [hrun] at hyields
  rw [hprogram] at h
  have hall : 0 + pathBlock 0 1 statements ≤ maxNesting := hyields.2.2 (Nat.zero_le _)
  rw [Nat.zero_add] at hall
  exact Nat.le_trans (path_le_pathBlock h) hall

/-! ## Long sums -/

/-- The sum of a name with itself, with so many signs. -/
def sumText : Nat → String
  | 0 => "a"
  | signs + 1 => sumText signs ++ " + a"

/-- The tree of a sum: every sign applies to all that stands on its left. -/
def sumTree : Nat → Expression
  | 0 => .identifier "a"
  | signs + 1 => .binary (sumTree signs) "+" (.identifier "a")

theorem height_sumTree (signs : Nat) : (sumTree signs).height = signs + 1 := by
  induction signs with
  | zero => rfl
  | succ signs ih =>
    rw [Expression.height] at ih ⊢
    rw [sumTree, Expression.path, ih, Expression.path]
    omega

open TokenSource in
/-- A scanner in front of a sum hands out a phrase for it that needs no more than two levels. -/
theorem exists_sumPhrase (options : Options) (signs : Nat) {scanner : Scanner} {back : List Char}
    (hrest : scanner.rest = (sumText signs).toList ++ back) (hback : Breaks isWordPart back) :
    ∃ (phrase : Phrase) (after : Scanner), phrase.tree = sumTree signs ∧ phrase.nesting ≤ 2 ∧
      3 ≤ phrase.reach (.standard options) ∧ (∀ next, phrase.Fits (.standard options) next) ∧
      after.rest = back ∧ content scanner = phrase.tokens ++ content after := by
  have hword : IsWord "a".toList := ⟨⟨'a', [], rfl, by decide⟩, by decide⟩
  induction signs generalizing scanner back with
  | zero =>
    obtain ⟨token, after, hkind, htext, hafter, hcontent⟩ := Scanner.exists_word hrest hword hback
    exact ⟨.identifier token, after, congrArg _ htext, show 1 ≤ 2 by decide, show 3 ≤ 6 by decide,
      fun _ => hkind, hafter, hcontent⟩
  | succ signs ih =>
    have hrest : scanner.rest =
        (sumText signs).toList ++ ' ' :: ("+".toList ++ ' ' :: ("a".toList ++ back)) := by
      rw [hrest, sumText]
      simp
    obtain ⟨left, s₁, htree, hnesting, hreach, hfits, hs₁, hcontent₁⟩ :=
      ih hrest (breaks_cons.2 (by decide))
    have hplus : ("+", TokenKind.plus) ∈ spacedSigns := by decide
    obtain ⟨sign, s₂, hsign, hsignText, hs₂, hcontent₂⟩ :=
      Scanner.exists_spacedSign hplus hs₁ (hword.breaks_blank back)
    obtain ⟨token, after, hkind, htext, hafter, hcontent₃⟩ := Scanner.exists_word hs₂ hword hback
    have hlevel : (Grammar.standard options).level? sign.kind = some 3 := by rw [hsign]; rfl
    refine ⟨.binary left sign (.identifier token), after, ?_, ?_, ?_, ?_, hafter, ?_⟩
    · rw [Phrase.tree, Phrase.tree, htree, hsignText, htext]
      rfl
    · simp only [Phrase.nesting]
      omega
    · rw [Phrase.reach, hlevel]
      exact Nat.le_refl 3
    · exact fun next => ⟨3, hlevel, hreach, hfits _, show 3 < 6 by decide, hkind⟩
    · rw [hcontent₁, hcontent₂, hcontent₃]
      simp [Phrase.tokens]

/-- A sum is parsed without anything found wrong, however long it is. -/
theorem parse_sumText (signs : Nat) (file : Option String) (options : Options) :
    (parseSource (sumText signs) file options).program = ⟨[.expression (sumTree signs)]⟩ ∧
      (parseSource (sumText signs) file options).diagnostics = [] := by
  have hrest : (Scanner.ofSource (sumText signs) file).rest = (sumText signs).toList ++ [] :=
    (List.append_nil _).symm
  obtain ⟨phrase, after, htree, hnesting, -, hfits, hafter, hcontent⟩ :=
    exists_sumPhrase options signs hrest (breaks_nil _)
  have hstop : ¬(Grammar.standard options).Continues .endOfInput :=
    Grammar.not_continues_iff.2 (Grammar.strength_endOfInput _)
  have hanswers : (parseSource (sumText signs) file options).Answers [.expression phrase none] := by
    refine parse_answers (endStays_scanner _ file options) ?_
      ⟨⟨hfits _, hstop, fun _ => .inr rfl⟩, trivial⟩
    rw [hcontent, content_of_rest_nil hafter]
    simp [clausesTokens, Clause.tokens]
  obtain ⟨hprogram, hclean⟩ := hanswers.within (List.forall_mem_singleton.2
    (Nat.le_trans hnesting (by decide)))
  refine ⟨?_, hclean⟩
  rw [hprogram, clausesTrees, Clause.tree, htree, clausesTrees]

/--
The limit of nesting bounds the levels of every statement that a parse returns, steps to the left
left out, and so its height only up to these steps: there are sources with nothing wrong whose
trees are higher than any bound.
-/
theorem height_le_limit_add_leftSteps (file : Option String) (options : Options) :
    (∀ source, ∀ s ∈ (parseSource source file options).program.statements,
      s.levels ≤ 256 ∧ s.height ≤ 256 + s.leftSteps) ∧
    (∀ bound, ∃ source, (parseSource source file options).diagnostics = [] ∧
      ∃ s ∈ (parseSource source file options).program.statements, bound < s.height) := by
  constructor
  · intro source s hmem
    rw [parseSource] at hmem
    have hlevels := levels_le_of_parse _ options hmem
    have hheight := s.height_le
    rw [maxNesting] at hlevels
    exact ⟨hlevels, by omega⟩
  · intro bound
    obtain ⟨hprogram, hclean⟩ := parse_sumText bound file options
    refine ⟨sumText bound, hclean, .expression (sumTree bound), ?_, ?_⟩
    · rw [hprogram]
      exact List.mem_singleton_self _
    · exact Nat.lt_of_lt_of_eq (Nat.lt_succ_self bound) (height_sumTree bound).symm

theorem height_le_limit_add_leftSteps_sum :
    Statement.expression (sumTree 256) ∈
      (parseSource (sumText 256) none {}).program.statements ∧
    (Statement.expression (sumTree 256)).levels ≤ 256 ∧
    (Statement.expression (sumTree 256)).height ≤
      256 + (Statement.expression (sumTree 256)).leftSteps := by
  have hmem : Statement.expression (sumTree 256) ∈
      (parseSource (sumText 256) none {}).program.statements := by
    rw [(parse_sumText 256 none {}).1]
    exact List.mem_singleton_self _
  exact ⟨hmem, (height_le_limit_add_leftSteps none {}).1 _ _ hmem⟩

/-- A sum of 257 names has nothing wrong, and its tree is higher than the limit of nesting. -/
theorem height_sum_exceeds_limit :
    (parseSource (sumText 256) none {}).diagnostics = [] ∧
    (parseSource (sumText 256) none {}).program.statements = [.expression (sumTree 256)] ∧
    maxNesting < (sumTree 256).height := by
  obtain ⟨hprogram, hclean⟩ := parse_sumText 256 none {}
  refine ⟨hclean, by rw [hprogram], ?_⟩
  rw [height_sumTree]
  decide

end Monkey
