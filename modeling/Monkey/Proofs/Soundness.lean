import Monkey.Proofs.Reading

/-!
# What is parsed without fault is written in the grammar

A reading without fault has taken exactly the tokens of a tree of the grammar, and its value is that
tree without grouping and separators. The routines call each other, so this is shown of all of them
at once, by induction on the steps (`Routines.Sound`). Each says how the input was cut: the tokens
in front are those of the tree, the rest is still ahead.

The loop over operators carries the invariant that makes levels come out right: what was read so
far reaches at least as far as the operator that comes next binds. An operand reaches furthest, and
behind a binary operation stands what its right side left over, which binds no tighter than its
operator.
-/

namespace Monkey

open ParserM

variable {σ : Type} [TokenSource σ]

/-- A parser that goes by a grammar, and whose end of input is final. -/
structure Parser.Ready (parser : Parser σ) (g : Grammar) : Prop extends parser.Obeys g where
  endStays : parser.EndStays

theorem Parser.Ready.follows {before after : Parser σ} {g : Grammar} (h : before.Ready g)
    (hfollows : before.Follows after) : after.Ready g :=
  ⟨h.toObeys.follows hfollows, hfollows.endStays h.endStays⟩

theorem Parser.Ready.advance {parser : Parser σ} {g : Grammar} (h : parser.Ready g) :
    parser.advance.Ready g :=
  h.follows (.advance parser)

/-- An expression of the grammar whose tokens were taken between two states of a parser. -/
structure Phrase.Between (phrase : Phrase) (g : Grammar) (before : Parser σ) (value : Expression)
    (after : Parser σ) : Prop where
  input : before.input = phrase.tokens ++ after.ahead
  tree : phrase.tree = value
  fits : phrase.Fits g after.peek.kind

/-- An expression between two states of a parser that is one operand: nothing behind it binds so
tightly that it gets less than the whole of it. -/
structure Phrase.OperandBetween (phrase : Phrase) (g : Grammar) (before : Parser σ)
    (value : Expression) (after : Parser σ) : Prop extends
    phrase.Between g before value after where
  level : phrase.level g = 6
  reach : g.strength after.peek.kind ≤ phrase.reach g

/-- A statement of the grammar whose tokens were taken between two states of a parser. -/
structure Clause.Between (clause : Clause) (g : Grammar) (before : Parser σ) (value : Statement)
    (after : Parser σ) : Prop where
  input : before.input = clause.tokens ++ after.ahead
  tree : clause.tree = value
  fits : clause.Fits g after.peek.kind

/-- Routines whose readings without fault are those of trees of a grammar. -/
structure Routines.Sound (r : Routines σ) (g : Grammar) : Prop where
  expression : ∀ {limit : Precedence} {p e q}, limit.level ≤ 5 → p.Ready g →
    (r.expression limit).Reads p e q → ∃ phrase : Phrase, phrase.Between g p e q ∧
      limit.level < phrase.level g ∧ g.strength q.peek.kind ≤ limit.level
  operators : ∀ {limit : Precedence} {left : Phrase} {p e q}, limit.level ≤ 5 → p.Ready g →
    limit.level < left.level g → left.Fits g p.peek.kind →
    g.strength p.peek.kind ≤ left.reach g → (r.operators limit left.tree).Reads p e q →
    ∃ phrase : Phrase, left.tokens ++ p.ahead = phrase.tokens ++ q.ahead ∧ phrase.tree = e ∧
      phrase.Fits g q.peek.kind ∧ limit.level < phrase.level g ∧
      g.strength q.peek.kind ≤ limit.level
  parameters : ∀ {p names q}, r.parameters.Reads p names q →
    ∃ further : List (Token × Token),
      p.ahead = (further.flatMap fun (comma, name) => [comma, name]) ++ q.ahead ∧
      (further.map fun (_, name) => name.text) = names ∧
      ∀ pair ∈ further, pair.1.kind = .comma ∧ pair.2.kind = .identifier
  arguments : ∀ {p values q}, p.Ready g → r.arguments.Reads p values q →
    ∃ further : FurtherArguments, p.ahead = further.tokens ++ q.ahead ∧ further.trees = values ∧
      (q.peek.kind = .closeParen → further.Fits g ∧ p.peek.kind = further.lead)
  statement : ∀ {p s q}, p.Ready g → r.statement.Reads p s q →
    ∃ clause : Clause, clause.Between g p s q
  statements : ∀ {region p statements q}, p.Ready g → (r.statements region).Reads p statements q →
    ∃ clauses, p.input = clausesTokens clauses ++ q.input ∧ clausesTrees clauses = statements ∧
      ClausesFit g q.current.kind clauses ∧ region.endsAt q.current.kind = true

namespace Routines.Sound

variable {r : Routines σ} [r.Steady] {g : Grammar} {p q : Parser σ}

/-! ## Blocks -/

theorem block (h : r.Sound g) (hp : p.Ready g) (hopen : p.current.kind = .openCurly)
    {statements : List Statement} (hread : r.block.Reads p statements q) :
    ∃ block : Block, p.input = block.tokens ++ q.ahead ∧ block.trees = statements ∧
      block.Fits g q.peek.kind := by
  have hinside := hread.of_announce.of_advance
  have hready : (p.write (.event .block)).advance.Ready g := (hp.follows (.write p _)).advance
  obtain ⟨clauses, hinput, htrees, hfit, hends⟩ := h.statements hready hinside
  rw [Parser.input_advance, Parser.ahead_write] at hinput
  have hq : q.Ready g := hready.follows hinside.follows
  have hcur : p.current.kind ≠ .endOfInput := by rw [hopen]; decide
  rw [Parser.input_of_current hcur, hinput]
  by_cases hend : q.current.kind = .endOfInput
  · -- the end of input stands for the brace, and nothing follows it
    rw [hend] at hfit
    refine ⟨.mk p.current clauses none, ?_, htrees, hopen, hfit, hq.endStays 0 hend⟩
    rw [hq.endStays.ahead_eq_nil hend, Parser.input, if_pos hend]
    simp [Block.tokens]
  · have hclose : q.current.kind = .closeCurly := by
      cases hkind : q.current.kind with
      | endOfInput => exact absurd hkind hend
      | closeCurly => rfl
      | _ => rw [hkind] at hends; cases hends
    rw [hclose] at hfit
    refine ⟨.mk p.current clauses (some q.current), ?_, htrees, hopen, hfit, hclose⟩
    rw [Parser.input_of_current hend]
    simp [Block.tokens]

theorem alternative (h : r.Sound g) (hp : p.Ready g) {value : Option (List Statement)}
    (hread : r.alternative.Reads p value q) :
    ∃ alternative : Alternative, p.ahead = alternative.tokens ++ q.ahead ∧
      alternative.trees = value ∧ alternative.Fits g q.peek.kind ∧
      p.peek.kind = alternative.lead q.peek.kind := by
  have hrest := hread.of_peekIs
  by_cases hword : p.peek.kind = .elseWord
  · simp only [hword, decide_true, if_true] at hrest
    obtain ⟨hopen, hrest⟩ := hrest.of_advance.of_expect
    obtain ⟨statements, hblock, rfl⟩ := hrest.of_map
    obtain ⟨block, hinput, htrees, hfits⟩ := h.block hp.advance.advance hopen hblock
    refine ⟨.some p.peek block, ?_, congrArg some htrees, ⟨hword, hfits⟩, hword⟩
    rw [Parser.input_advance] at hinput
    rw [Parser.ahead_of_peek (by rw [hword]; decide), hinput]
    rfl
  · simp only [hword, decide_false, Bool.false_eq_true, if_false] at hrest
    obtain ⟨rfl, rfl⟩ := hrest.of_pure
    exact ⟨.none, rfl, rfl, hword, rfl⟩

/-! ## Operands -/

theorem grouping (h : r.Sound g) (hp : p.Ready g) (hopen : p.current.kind = .openParen)
    {e : Expression} (hread : r.grouping.Reads p e q) :
    ∃ phrase : Phrase, phrase.OperandBetween g p e q := by
  obtain ⟨inner, q', hinner, hrest⟩ := hread.of_advance.of_bind
  obtain ⟨hclose, hpure⟩ := hrest.of_expect
  obtain ⟨rfl, rfl⟩ := hpure.of_pure
  obtain ⟨phrase, ⟨hinput, htree, hfits⟩, -, hstop⟩ := h.expression (by decide) hp.advance hinner
  rw [hclose] at hfits hstop
  have hends : ¬g.Continues .closeParen := Grammar.not_continues_iff.2 (Nat.le_zero.1 hstop)
  refine ⟨.group p.current phrase q'.peek, ⟨?_, htree, hopen, hfits, hends, hclose⟩, rfl,
    g.strength_le _⟩
  rw [Parser.input_of_current (by rw [hopen]; decide), ← Parser.input_advance, hinput,
    Parser.ahead_of_peek (by rw [hclose]; decide)]
  simp [Phrase.tokens]

omit [r.Steady] in
theorem unary (h : r.Sound g) (hp : p.Ready g)
    (hoperator : p.current.kind = .bang ∨ p.current.kind = .dash) {e : Expression}
    (hread : r.unary.Reads p e q) :
    ∃ phrase : Phrase, phrase.OperandBetween g p e q := by
  obtain ⟨right, hright, rfl⟩ := hread.of_current.of_advance.of_map
  obtain ⟨phrase, ⟨hinput, htree, hfits⟩, hlevel, hstop⟩ :=
    h.expression (by decide) hp.advance hright
  refine ⟨.unary p.current phrase, ⟨?_, by rw [← htree]; rfl, hoperator, hlevel, hfits⟩, rfl,
    hstop⟩
  have hcur : p.current.kind ≠ .endOfInput := by rcases hoperator with h | h <;> rw [h] <;> decide
  rw [Parser.input_of_current hcur, ← Parser.input_advance, hinput]
  rfl

theorem conditional (h : r.Sound g) (hp : p.Ready g) (hword : p.current.kind = .ifWord)
    {e : Expression} (hread : r.conditional.Reads p e q) :
    ∃ phrase : Phrase, phrase.OperandBetween g p e q := by
  obtain ⟨hopen, hread⟩ := hread.of_expect
  obtain ⟨condition, p₁, hcondition, hread⟩ := hread.of_advance.of_bind
  obtain ⟨hclose, hread⟩ := hread.of_expect
  obtain ⟨hcurly, hread⟩ := hread.of_expect
  obtain ⟨consequence, p₂, hconsequence, hread⟩ := hread.of_bind
  obtain ⟨alternative, halternative, rfl⟩ := hread.of_map
  obtain ⟨test, ⟨hinput, rfl, hfits⟩, -, hstop⟩ :=
    h.expression (by decide) hp.advance.advance hcondition
  have hp₁ : p₁.Ready g := hp.advance.advance.follows hcondition.follows
  obtain ⟨block, hblock, rfl, hblockFits⟩ := h.block hp₁.advance.advance hcurly hconsequence
  have hp₂ : p₂.Ready g := hp₁.advance.advance.follows hconsequence.follows
  obtain ⟨other, hother, rfl, hotherFits, hlead⟩ := h.alternative hp₂ halternative
  rw [hclose] at hfits hstop
  rw [hlead] at hblockFits
  have hends : ¬g.Continues .closeParen := Grammar.not_continues_iff.2 (Nat.le_zero.1 hstop)
  refine ⟨.conditional p.current p.peek test p₁.peek block other,
    ⟨?_, rfl, hword, hopen, hfits, hends, hclose, hblockFits, hotherFits⟩, rfl, g.strength_le _⟩
  rw [Parser.input_advance] at hinput hblock
  rw [Parser.input_of_current (by rw [hword]; decide),
    Parser.ahead_of_peek (by rw [hopen]; decide), hinput,
    Parser.ahead_of_peek (by rw [hclose]; decide), hblock, hother]
  simp [Phrase.tokens]

theorem parameterList (h : r.Sound g) {names : List String}
    (hread : r.parameterList.Reads p names q) :
    ∃ parameters : Parameters, p.ahead = parameters.tokens ++ q.current :: q.ahead ∧
      parameters.names = names ∧ parameters.Fits ∧ q.current.kind = .closeParen := by
  have hrest := hread.of_peekIs
  by_cases hclose : p.peek.kind = .closeParen
  · simp only [hclose, decide_true, if_true] at hrest
    obtain ⟨rfl, rfl⟩ := hrest.of_advance.of_pure
    exact ⟨.none, Parser.ahead_of_peek (by rw [hclose]; decide), rfl, trivial, hclose⟩
  · simp only [hclose, decide_false, Bool.false_eq_true, if_false] at hrest
    obtain ⟨hname, hrest⟩ := hrest.of_expect
    obtain ⟨names', q', hnames, hrest⟩ := hrest.of_current.of_bind
    obtain ⟨hend, hpure⟩ := hrest.of_expect
    obtain ⟨rfl, rfl⟩ := hpure.of_pure
    obtain ⟨further, hahead, rfl, hkinds⟩ := h.parameters hnames
    refine ⟨.some p.peek further, ?_, rfl, ⟨hname, hkinds⟩, hend⟩
    rw [Parser.ahead_of_peek (by rw [hname]; decide), hahead,
      Parser.ahead_of_peek (by rw [hend]; decide)]
    simp [Parameters.tokens, Parser.advance]

theorem function (h : r.Sound g) (hp : p.Ready g) (hword : p.current.kind = .fnWord)
    {e : Expression} (hread : r.function.Reads p e q) :
    ∃ phrase : Phrase, phrase.OperandBetween g p e q := by
  obtain ⟨hopen, hread⟩ := hread.of_expect
  obtain ⟨names, p₁, hnames, hread⟩ := hread.of_bind
  obtain ⟨hcurly, hread⟩ := hread.of_expect
  obtain ⟨statements, hblock, rfl⟩ := hread.of_map
  obtain ⟨parameters, hahead, rfl, hparameters, hclose⟩ := h.parameterList hnames
  have hp₁ : p₁.Ready g := hp.advance.follows hnames.follows
  obtain ⟨body, hinput, rfl, hbody⟩ := h.block hp₁.advance hcurly hblock
  refine ⟨.function p.current p.peek parameters p₁.current body,
    ⟨?_, rfl, hword, hopen, hparameters, hclose, hbody⟩, rfl, g.strength_le _⟩
  rw [Parser.input_advance] at hinput
  rw [Parser.input_of_current (by rw [hword]; decide),
    Parser.ahead_of_peek (by rw [hopen]; decide), hahead, hinput]
  simp [Phrase.tokens]

/-- An operand is a whole expression but for the operators behind it. -/
theorem operandBy (h : r.Sound g) (hp : p.Ready g) {rule : OperandRule}
    (hrule : Tables.standardOperand? p.current.kind = some rule) {e : Expression}
    (hread : (r.operandBy rule).Reads p e q) :
    ∃ phrase : Phrase, phrase.OperandBetween g p e q := by
  have hcur : p.current.kind ≠ .endOfInput := by
    intro hend
    rw [hend] at hrule
    cases hrule
  have hinput := Parser.input_of_current hcur
  unfold Tables.standardOperand? at hrule
  split at hrule <;> cases hrule
  next hkind =>
    obtain ⟨rfl, rfl⟩ := hread.of_current.of_pure
    exact ⟨.identifier p.current, ⟨hinput, rfl, hkind⟩, rfl, g.strength_le _⟩
  next hkind =>
    have hrun : integerOperand p = .ok e q := hread.run
    unfold integerOperand at hrun
    split at hrun
    next value hvalue =>
      cases hrun
      exact ⟨.integer p.current value,
        ⟨hinput, rfl, hkind, Text.readDecimal?_of_readInt64? hvalue⟩, rfl, g.strength_le _⟩
    next =>
      -- an integer out of range would have been recorded
      have hclean := hread.clean
      cases hrun
      simp only [Parser.record, Array.size_push] at hclean
      omega
  next hkind =>
    obtain ⟨rfl, rfl⟩ := hread.of_current.of_pure
    exact ⟨.boolean p.current true, ⟨hinput, by simp [Phrase.tree, hkind], hkind⟩, rfl,
      g.strength_le _⟩
  next hkind =>
    obtain ⟨rfl, rfl⟩ := hread.of_current.of_pure
    exact ⟨.boolean p.current false, ⟨hinput, by simp [Phrase.tree, hkind], hkind⟩, rfl,
      g.strength_le _⟩
  next hkind => exact h.unary hp (.inl hkind) hread
  next hkind => exact h.unary hp (.inr hkind) hread
  next hkind => exact h.grouping hp hkind hread
  next hkind => exact h.conditional hp hkind hread
  next hkind => exact h.function hp hkind hread

omit [r.Steady] in
theorem parametersStep (h : r.Sound g) {names : List String}
    (hread : r.parametersStep.Reads p names q) :
    ∃ further : List (Token × Token),
      p.ahead = (further.flatMap fun (comma, name) => [comma, name]) ++ q.ahead ∧
      (further.map fun (_, name) => name.text) = names ∧
      ∀ pair ∈ further, pair.1.kind = .comma ∧ pair.2.kind = .identifier := by
  have hrest := hread.of_peekIs
  by_cases hcomma : p.peek.kind = .comma
  · simp only [hcomma, decide_true, if_true] at hrest
    obtain ⟨hname, hrest⟩ := hrest.of_advance.of_expect
    obtain ⟨names', hnames, rfl⟩ := hrest.of_current.of_map
    obtain ⟨further, hahead, rfl, hkinds⟩ := h.parameters hnames
    refine ⟨(p.peek, p.advance.peek) :: further, ?_, rfl, ?_⟩
    · rw [Parser.ahead_of_peek (by rw [hcomma]; decide),
        Parser.ahead_of_peek (by rw [hname]; decide), hahead]
      rfl
    · rintro pair (_ | ⟨_, hmem⟩)
      · exact ⟨hcomma, hname⟩
      · exact hkinds pair hmem
  · simp only [hcomma, decide_false, Bool.false_eq_true, if_false] at hrest
    obtain ⟨rfl, rfl⟩ := hrest.of_pure
    exact ⟨[], rfl, rfl, fun _ hmem => by cases hmem⟩

/-! ## Operators -/

theorem argumentsStep (h : r.Sound g) {values : List Expression} (hp : p.Ready g)
    (hread : r.argumentsStep.Reads p values q) :
    ∃ further : FurtherArguments, p.ahead = further.tokens ++ q.ahead ∧ further.trees = values ∧
      (q.peek.kind = .closeParen → further.Fits g ∧ p.peek.kind = further.lead) := by
  have hrest := hread.of_peekIs
  by_cases hcomma : p.peek.kind = .comma
  · simp only [hcomma, decide_true, if_true] at hrest
    obtain ⟨value, p₁, hvalue, hrest⟩ := hrest.of_advance.of_advance.of_bind
    obtain ⟨values', hvalues, rfl⟩ := hrest.of_map
    obtain ⟨phrase, ⟨hinput, rfl, hfits⟩, -, hstop⟩ :=
      h.expression (by decide) hp.advance.advance hvalue
    have hp₁ : p₁.Ready g := hp.advance.advance.follows hvalue.follows
    obtain ⟨further, hahead, rfl, hfurther⟩ := h.arguments hp₁ hvalues
    refine ⟨.some p.peek phrase further, ?_, rfl, fun hclose => ?_⟩
    · rw [Parser.input_advance] at hinput
      rw [Parser.ahead_of_peek (by rw [hcomma]; decide), hinput, hahead]
      simp [FurtherArguments.tokens]
    · obtain ⟨hfurtherFits, hlead⟩ := hfurther hclose
      rw [hlead] at hfits hstop
      exact ⟨⟨hcomma, hfits, Grammar.not_continues_iff.2 (Nat.le_zero.1 hstop), hfurtherFits⟩,
        hcomma⟩
  · simp only [hcomma, decide_false, Bool.false_eq_true, if_false] at hrest
    obtain ⟨rfl, rfl⟩ := hrest.of_pure
    exact ⟨.none, rfl, rfl, fun hclose => ⟨trivial, hclose⟩⟩

theorem argumentList (h : r.Sound g) (hp : p.Ready g) {values : List Expression}
    (hread : r.argumentList.Reads p values q) :
    ∃ arguments : Arguments, p.ahead = arguments.tokens ++ q.current :: q.ahead ∧
      arguments.trees = values ∧ arguments.Fits g ∧ q.current.kind = .closeParen := by
  have hrest := hread.of_peekIs
  by_cases hclose : p.peek.kind = .closeParen
  · simp only [hclose, decide_true, if_true] at hrest
    obtain ⟨rfl, rfl⟩ := hrest.of_advance.of_pure
    exact ⟨.none, Parser.ahead_of_peek (by rw [hclose]; decide), rfl, trivial, hclose⟩
  · simp only [hclose, decide_false, Bool.false_eq_true, if_false] at hrest
    obtain ⟨value, p₁, hvalue, hrest⟩ := hrest.of_advance.of_bind
    obtain ⟨values', p₂, hvalues, hrest⟩ := hrest.of_bind
    obtain ⟨hend, hpure⟩ := hrest.of_expect
    obtain ⟨rfl, rfl⟩ := hpure.of_pure
    obtain ⟨phrase, ⟨hinput, rfl, hfits⟩, -, hstop⟩ := h.expression (by decide) hp.advance hvalue
    have hp₁ : p₁.Ready g := hp.advance.follows hvalue.follows
    obtain ⟨further, hahead, rfl, hfurther⟩ := h.arguments hp₁ hvalues
    obtain ⟨hfurtherFits, hlead⟩ := hfurther hend
    rw [hlead] at hfits hstop
    refine ⟨.some phrase further, ?_, rfl,
      ⟨hfits, Grammar.not_continues_iff.2 (Nat.le_zero.1 hstop), hfurtherFits⟩, hend⟩
    rw [← Parser.input_advance, hinput, hahead, Parser.ahead_of_peek (by rw [hend]; decide)]
    simp [Arguments.tokens, Parser.advance]

/-- One more operator: what was read so far becomes its left side. -/
theorem operatorBy (h : r.Sound g) (hp : p.Ready g) {left : Phrase}
    (hfits : left.Fits g p.peek.kind) (hreach : g.strength p.peek.kind ≤ left.reach g)
    {precedence : Precedence} {rule : OperatorRule}
    (hrule : g.operator? p.peek.kind = some (precedence.level, rule)) {e : Expression}
    (hread : (r.operatorBy left.tree precedence rule).Reads p.advance e q) :
    ∃ phrase : Phrase, left.tokens ++ p.ahead = phrase.tokens ++ q.ahead ∧ phrase.tree = e ∧
      phrase.Fits g q.peek.kind ∧ precedence.level ≤ phrase.level g ∧
      g.strength q.peek.kind ≤ phrase.reach g := by
  have hpeek : p.peek.kind ≠ .endOfInput := by
    intro hend
    rw [hend, Grammar.operator?, g.level?_endOfInput] at hrule
    simp at hrule
  have hstrength : g.strength p.peek.kind = precedence.level := by
    rw [Grammar.strength, hrule]
    rfl
  unfold Grammar.operator? at hrule
  split at hrule
  next hcall =>
    obtain ⟨hcalls, hopen⟩ := hcall
    simp only [Option.some.injEq, Prod.mk.injEq] at hrule
    obtain ⟨hlevel, rfl⟩ := hrule
    obtain ⟨values, hvalues, rfl⟩ := ParserM.Reads.of_map hread
    obtain ⟨arguments, hahead, rfl, harguments, hclose⟩ := h.argumentList hp.advance hvalues
    rw [hopen] at hfits
    rw [hstrength, ← hlevel] at hreach
    refine ⟨.call left p.peek arguments q.current, ?_, rfl,
      ⟨hcalls, hreach, hfits, hopen, harguments, hclose⟩, Nat.le_of_eq hlevel.symm,
      g.strength_le _⟩
    rw [Parser.ahead_of_peek hpeek, hahead]
    simp [Phrase.tokens]
  next =>
    cases hbinary : g.level? p.peek.kind with
    | none => rw [hbinary] at hrule; cases hrule
    | some level =>
      rw [hbinary] at hrule
      simp only [Option.map_some, Option.some.injEq, Prod.mk.injEq] at hrule
      obtain ⟨rfl, rfl⟩ := hrule
      obtain ⟨right, hright, rfl⟩ := (ParserM.Reads.of_current hread).of_advance.of_map
      obtain ⟨phrase, ⟨hinput, rfl, hrightFits⟩, hlevel, hstop⟩ :=
        h.expression (g.level_le hbinary) hp.advance.advance hright
      rw [hstrength] at hreach
      refine ⟨.binary left p.peek phrase, ?_, rfl,
        ⟨precedence.level, hbinary, hreach, hfits, hlevel, hrightFits⟩, ?_, ?_⟩
      · rw [Parser.input_advance] at hinput
        rw [Parser.ahead_of_peek hpeek, hinput]
        simp [Phrase.tokens]
      · simp [Phrase.level, hbinary]
      · simpa [Phrase.reach, hbinary] using hstop

theorem operatorsStep (h : r.Sound g) {limit : Precedence} {left : Phrase} {e : Expression}
    (hlimit : limit.level ≤ 5) (hp : p.Ready g) (hlevel : limit.level < left.level g)
    (hfits : left.Fits g p.peek.kind) (hreach : g.strength p.peek.kind ≤ left.reach g)
    (hread : (r.operatorsStep limit left.tree).Reads p e q) :
    ∃ phrase : Phrase, left.tokens ++ p.ahead = phrase.tokens ++ q.ahead ∧ phrase.tree = e ∧
      phrase.Fits g q.peek.kind ∧ limit.level < phrase.level g ∧
      g.strength q.peek.kind ≤ limit.level := by
  have hrest := hread.of_get
  have hentry := hp.tables.operator p.peek.kind
  cases hfound : p.tables.operator? p.peek.kind with
  | none =>
    rw [hfound] at hrest hentry
    obtain ⟨rfl, rfl⟩ := ParserM.Reads.of_pure hrest
    refine ⟨left, rfl, rfl, hfits, hlevel, ?_⟩
    rw [Grammar.strength, ← hentry]
    exact Nat.zero_le _
  | some entry =>
    obtain ⟨precedence, rule⟩ := entry
    rw [hfound] at hrest hentry
    have hrule : g.operator? p.peek.kind = some (precedence.level, rule) := hentry.symm
    simp only at hrest
    split at hrest
    next hgoes =>
      obtain ⟨more, q', hmore, hrest⟩ := hrest.of_advance.of_bind
      obtain ⟨phrase, htokens, rfl, hmoreFits, hmoreLevel, hmoreReach⟩ :=
        h.operatorBy hp hfits hreach hrule hmore
      have hq' : q'.Ready g := hp.advance.follows hmore.follows
      have hgoesLevel : limit.level < precedence.level := hgoes.2
      rw [htokens]
      exact h.operators hlimit hq' (by omega) hmoreFits hmoreReach hrest
    next hstops =>
      obtain ⟨rfl, rfl⟩ := hrest.of_pure
      refine ⟨left, rfl, rfl, hfits, hlevel, ?_⟩
      have hsemicolon : p.peek.kind ≠ .semicolon := by
        intro hsemi
        rw [hsemi, Grammar.operator?, g.level?_semicolon] at hrule
        simp at hrule
      have hnot : ¬limit.level < precedence.level := fun hlt => hstops ⟨hsemicolon, hlt⟩
      rw [Grammar.strength, hrule]
      exact Nat.not_lt.1 hnot

theorem expressionStep (h : r.Sound g) {limit : Precedence} {e : Expression}
    (hlimit : limit.level ≤ 5) (hp : p.Ready g) (hread : (r.expressionStep limit).Reads p e q) :
    ∃ phrase : Phrase, phrase.Between g p e q ∧ limit.level < phrase.level g ∧
      g.strength q.peek.kind ≤ limit.level := by
  obtain ⟨q', hinner, rfl⟩ := ParserM.Reads.of_nested hread
  have hrest := hinner.of_get.of_announce
  let inner := { p with depth := p.depth + 1 }.write (.event (.expression p.current.kind limit))
  have hwindow : inner.window = (p.skip 0).window := rfl
  have hready : inner.Ready g := ⟨⟨hp.tables, hp.strict⟩, hp.endStays.of_window hwindow⟩
  cases hfound : p.tables.operand? p.current.kind with
  | none =>
    simp only [hfound] at hrest
    cases hrest.run
  | some rule =>
    simp only [hfound] at hrest
    rw [hp.tables.operand] at hfound
    obtain ⟨left, p₁, hoperand, hrest⟩ := hrest.of_bind
    obtain ⟨operand, ⟨hinput, rfl, hfits⟩, hlevel, hreach⟩ := h.operandBy hready hfound hoperand
    have hp₁ : p₁.Ready g := hready.follows hoperand.follows
    obtain ⟨phrase, htokens, htree, hphrase, hphraseLevel, hstop⟩ :=
      h.operators hlimit hp₁ (by omega) hfits hreach hrest
    exact ⟨phrase, ⟨Eq.trans hinput htokens, htree, hphrase⟩, hphraseLevel, hstop⟩

/-! ## Statements -/

/-- A statement ends with its semicolon, or where it may end without. -/
theorem reads_finishStatement (hp : p.Ready g) (hstop : ¬g.Continues p.peek.kind)
    {value w : Expression} (hread : (finishStatement (some value)).Reads p w q) :
    value = w ∧ ∃ semicolon : Option Token, p.ahead = semicolon.toList ++ q.ahead ∧
      p.peek.kind = leadKind q.peek.kind semicolon.toList ∧
      g.EndsStatement q.peek.kind semicolon := by
  have hrest := hread.of_peekIs
  by_cases hsemicolon : p.peek.kind = .semicolon
  · simp only [hsemicolon, decide_true, if_true] at hrest
    obtain ⟨rfl, rfl⟩ := hrest.of_advance.of_pure
    exact ⟨rfl, some p.peek, Parser.ahead_of_peek (by rw [hsemicolon]; decide), rfl, hsemicolon⟩
  · simp only [hsemicolon, decide_false, Bool.false_eq_true, if_false] at hrest
    have hrest : (if p.options.mayEndBefore p.peek.kind then (Pure.pure value : ParserM σ _)
        else expect .semicolon >>= fun _ => Pure.pure value).Reads p w q := ⟨hrest.run, hrest.clean⟩
    split at hrest
    next hends =>
      obtain ⟨rfl, rfl⟩ := hrest.of_pure
      refine ⟨rfl, none, rfl, rfl, hstop, fun hstrict => ?_⟩
      rw [← hp.strict] at hstrict
      simpa [Options.mayEndBefore, hstrict] using hends
    next => exact absurd hrest.of_expect.1 hsemicolon

theorem statementValue (h : r.Sound g) (hp : p.Ready g) {value : Expression}
    (hread : r.statementValue.Reads p value q) :
    ∃ (phrase : Phrase) (semicolon : Option Token),
      p.input = phrase.tokens ++ semicolon.toList ++ q.ahead ∧ phrase.tree = value ∧
      phrase.Fits g (leadKind q.peek.kind semicolon.toList) ∧
      g.EndsStatement q.peek.kind semicolon := by
  have hframed : r.Framed := Routines.Steady.framed
  obtain ⟨value', p₁, hvalue, hrest⟩ := ParserM.Reads.of_attempt hread (hframed.expression .lowest)
  obtain ⟨phrase, ⟨hinput, rfl, hfits⟩, -, hstop⟩ := h.expression (by decide) hp hvalue
  have hp₁ : p₁.Ready g := hp.follows hvalue.follows
  obtain ⟨rfl, semicolon, hahead, hkind, hends⟩ :=
    reads_finishStatement hp₁ (Grammar.not_continues_iff.2 (Nat.le_zero.1 hstop)) hrest
  rw [hkind] at hfits
  exact ⟨phrase, semicolon, by rw [hinput, hahead, List.append_assoc], rfl, hfits, hends⟩

theorem letBinding (h : r.Sound g) (hp : p.Ready g) (hword : p.current.kind = .letWord)
    {s : Statement} (hread : r.letBinding.Reads p s q) :
    ∃ clause : Clause, clause.Between g p s q := by
  obtain ⟨hname, hread⟩ := hread.of_expect
  obtain ⟨hassign, hread⟩ := hread.of_current.of_expect
  obtain ⟨value, hvalue, rfl⟩ := hread.of_advance.of_map
  obtain ⟨phrase, semicolon, hinput, rfl, hfits, hends⟩ :=
    h.statementValue hp.advance.advance.advance hvalue
  refine ⟨.letBinding p.current p.peek p.advance.peek phrase semicolon, ?_, rfl,
    hword, hname, hassign, hfits, hends⟩
  rw [Parser.input_advance] at hinput
  rw [Parser.input_of_current (by rw [hword]; decide),
    Parser.ahead_of_peek (by rw [hname]; decide), Parser.ahead_of_peek (by rw [hassign]; decide),
    hinput]
  simp [Clause.tokens]

theorem returning (h : r.Sound g) (hp : p.Ready g) (hword : p.current.kind = .returnWord)
    {s : Statement} (hread : r.returning.Reads p s q) :
    ∃ clause : Clause, clause.Between g p s q := by
  obtain ⟨value, hvalue, rfl⟩ := hread.of_advance.of_map
  obtain ⟨phrase, semicolon, hinput, rfl, hfits, hends⟩ := h.statementValue hp.advance hvalue
  refine ⟨.returning p.current phrase semicolon, ?_, rfl, hword, hfits, hends⟩
  rw [Parser.input_advance] at hinput
  rw [Parser.input_of_current (by rw [hword]; decide), hinput]
  simp [Clause.tokens]

theorem expressionStatement (h : r.Sound g) (hp : p.Ready g) {s : Statement}
    (hread : r.expressionStatement.Reads p s q) :
    ∃ clause : Clause, clause.Between g p s q := by
  obtain ⟨value, hvalue, rfl⟩ := ParserM.Reads.of_map hread
  obtain ⟨phrase, semicolon, hinput, rfl, hfits, hends⟩ := h.statementValue hp hvalue
  exact ⟨.expression phrase semicolon, hinput, rfl, hfits, hends⟩

theorem statementStep (h : r.Sound g) {s : Statement} (hp : p.Ready g)
    (hread : r.statementStep.Reads p s q) :
    ∃ clause : Clause, clause.Between g p s q := by
  have hrest := hread.of_get.of_announce
  have hready : (p.write (.event (.statement p.current.kind))).Ready g := hp.follows (.write p _)
  suffices hwritten : ∃ clause : Clause,
      clause.Between g (p.write (.event (.statement p.current.kind))) s q by
    obtain ⟨clause, hinput, htree, hfits⟩ := hwritten
    exact ⟨clause, hinput, htree, hfits⟩
  rw [hp.tables.statement] at hrest
  cases hkind : p.current.kind with
  | letWord => rw [hkind] at hrest hready; exact h.letBinding hready hkind hrest
  | returnWord => rw [hkind] at hrest hready; exact h.returning hready hkind hrest
  | _ => rw [hkind] at hrest hready; exact h.expressionStatement hready hrest

theorem statementsStep (h : r.Sound g) {region : Region} {statements : List Statement}
    (hp : p.Ready g) (hread : (r.statementsStep region).Reads p statements q) :
    ∃ clauses, p.input = clausesTokens clauses ++ q.input ∧ clausesTrees clauses = statements ∧
      ClausesFit g q.current.kind clauses ∧ region.endsAt q.current.kind = true := by
  have hrest := hread.of_current
  split at hrest
  next hends =>
    obtain ⟨rfl, rfl⟩ := hrest.of_pure
    exact ⟨[], rfl, rfl, trivial, hends⟩
  next =>
    have hframed : r.Framed := Routines.Steady.framed
    obtain ⟨statement, p₁, hstatement, hrest⟩ := hrest.of_attempt hframed.statement
    obtain ⟨more, hmore, rfl⟩ := hrest.of_advance.of_map
    obtain ⟨clause, hinput, rfl, hfits⟩ := h.statement hp hstatement
    have hp₁ : p₁.Ready g := hp.follows hstatement.follows
    obtain ⟨clauses, hinputs, rfl, hfit, hends⟩ := h.statements hp₁.advance hmore
    rw [Parser.input_advance] at hinputs
    -- the token behind the first statement is the first of the others, or of what follows them
    have hkind : p₁.peek.kind = leadKind q.current.kind (clausesTokens clauses) := by
      rw [← Parser.leadKind_ahead, hinputs, leadKind_append, Parser.leadKind_input]
    rw [hkind] at hfits
    refine ⟨clause :: clauses, ?_, rfl, ⟨hfits, hfit⟩, hends⟩
    rw [hinput, hinputs, clausesTokens, List.append_assoc]

end Routines.Sound

/-- With any number of steps, readings without fault are those of trees of the grammar. -/
theorem routines_sound (g : Grammar) (fuel : Nat) : (routines fuel : Routines σ).Sound g := by
  induction fuel with
  | zero =>
    refine ⟨?_, ?_, ?_, ?_, ?_, ?_⟩
    · exact fun _ _ hread => by cases hread.run
    · exact fun _ _ _ _ _ hread => by cases hread.run
    · exact fun hread => by cases hread.run
    · exact fun _ hread => by cases hread.run
    · exact fun _ hread => by cases hread.run
    · exact fun _ hread => by cases hread.run
  | succ fuel ih =>
    exact ⟨ih.expressionStep, ih.operatorsStep, ih.parametersStep, ih.argumentsStep,
      ih.statementStep, ih.statementsStep⟩

/-! ## Programs -/

/-- A parse that finds nothing wrong has read exactly the tokens of a program of the language. -/
theorem derives_of_parse {supply : σ} {options : Options}
    (hend : (Parser.ofSupply supply options).EndStays)
    (hclean : (parse supply options).diagnostics = []) :
    (Grammar.standard options).Derives (TokenSource.content supply)
      (parse supply options).program := by
  obtain ⟨statements, after, hrun, hprogram, hdiagnostics⟩ :=
    parse_eq_of_statements supply options
  let parser := Parser.ofSupply supply options
  let started := (parser.write .openedProgram).write .entered
  have hstarted : parser.Follows started := (Parser.Follows.write parser _).trans (.write _ _)
  have hready : started.Ready (.standard options) :=
    ⟨(obeys_ofSupply supply options).follows hstarted, hstarted.endStays hend⟩
  have hreads : ((routines parser.steps).statements .program).Reads started statements after := by
    refine ⟨hrun, ?_⟩
    rw [← Array.length_toList, ← hdiagnostics, hclean]
    exact Nat.zero_le _
  obtain ⟨clauses, hinput, htrees, hfit, hends⟩ :=
    (routines_sound (.standard options) parser.steps).statements hready hreads
  have hlast : after.current.kind = .endOfInput := by
    cases hkind : after.current.kind with
    | endOfInput => rfl
    | _ => rw [hkind] at hends; cases hends
  have hrest : after.input = [] := if_pos hlast
  rw [hlast] at hfit
  rw [hrest, List.append_nil] at hinput
  refine ⟨clauses, hfit, ?_, by rw [htrees, hprogram]⟩
  rw [← hinput]
  exact Parser.input_ofSupply supply options

/--
A parse of tokens or of a source that finds nothing wrong has read a program of the language: all
tokens but the end of input are those of a tree of the grammar, and the program is that tree.
-/
theorem derives_of_faultless (options : Options) :
    (∀ tokens, NoInnerEnd tokens → (parseTokens tokens options).diagnostics = [] →
      (Grammar.standard options).Derives (tokens.filter (·.kind ≠ .endOfInput))
        (parseTokens tokens options).program) ∧
    (∀ source file, (parseSource source file options).diagnostics = [] →
      (Grammar.standard options).Derives ((tokenize source file).filter (·.kind ≠ .endOfInput))
        (parseSource source file options).program) := by
  constructor
  · intro tokens hinner hclean
    rw [← content_tokenStream hinner]
    exact derives_of_parse (endStays_tokenStream options hinner) hclean
  · intro source file hclean
    exact derives_of_parse (endStays_scanner source file options) hclean

theorem derives_of_faultless_samples :
    ((parseTokens (tokenize "fn(x, y) \x7b return -x * (y + 1)" none)
        ⟨true, true⟩).diagnostics = [] ∧
      (Grammar.standard ⟨true, true⟩).Derives
        ((tokenize "fn(x, y) \x7b return -x * (y + 1)" none).filter (·.kind ≠ .endOfInput))
        (parseTokens (tokenize "fn(x, y) \x7b return -x * (y + 1)" none) ⟨true, true⟩).program) ∧
    ((parseSource "if (f(1, a)) \x7b b; \x7d; c" none ⟨true, true⟩).diagnostics = [] ∧
      (Grammar.standard ⟨true, true⟩).Derives
        ((tokenize "if (f(1, a)) \x7b b; \x7d; c" none).filter (·.kind ≠ .endOfInput))
        (parseSource "if (f(1, a)) \x7b b; \x7d; c" none ⟨true, true⟩).program) := by
  obtain ⟨htokens, hsource⟩ := derives_of_faultless ⟨true, true⟩
  have hopen : (parseTokens (tokenize "fn(x, y) \x7b return -x * (y + 1)" none)
      ⟨true, true⟩).diagnostics = [] := by decide +kernel
  have hclosed : (parseSource "if (f(1, a)) \x7b b; \x7d; c" none
      ⟨true, true⟩).diagnostics = [] := by decide +kernel
  exact ⟨⟨hopen, htokens _ (by decide +kernel) hopen⟩, hclosed, hsource _ none hclosed⟩

end Monkey
