import Monkey.Proofs.Openings

/-!
# Recovery behind a missing operand

Where a statement is cut off in front of an operand and an illegal token and a semicolon stand
there instead, exactly this statement is lost: one diagnostic says that an operand is missing at the
illegal token, and the statements in front of it and behind it are read as ever
(`recovers_of_segments`).

Once the operand is missed, everything around it fails too, whatever stack of groups, operators and
calls it is in. None of these takes a token or records anything (`Outcome.Misses`), so the illegal
token is still current when the statement takes the semicolon behind it. The way to the place is
followed along the tree that the statement would have been (`Phrase.Opens`): what stands on the left
of it is read in full, which costs no more levels of nesting than the whole would have.
-/

namespace Monkey

open ParserM TokenSource

variable {σ α β : Type} [TokenSource σ]

/-! ## Failing at a token -/

/-- A parser as it is left behind by failing at an illegal token and taking what comes up to some
others: one diagnostic was added, which says that an operand is missing there. -/
structure Parser.Misses (before after : Parser σ) (illegal : Token) (rest : List Token) : Prop
    extends before.Follows after where
  ahead : after.ahead = rest
  recorded : after.diagnostics =
    before.diagnostics.push ⟨.missingOperand .illegal, illegal.span.start⟩

/-- An outcome without a value, because an operand is missing at an illegal token. -/
def Outcome.Misses (outcome : Outcome σ α) (before : Parser σ) (illegal : Token)
    (rest : List Token) : Prop :=
  ∃ after, outcome = .absent after ∧ before.Misses after illegal rest

namespace Outcome.Misses

variable {p q : Parser σ} {illegal : Token} {rest : List Token}

theorem of_passes {outcome : Outcome σ α} (hpasses : p.Passes q)
    (h : outcome.Misses q illegal rest) : outcome.Misses p illegal rest := by
  obtain ⟨after, hrun, hmisses⟩ := h
  refine ⟨after, hrun, hpasses.toFollows.trans hmisses.toFollows, hmisses.ahead, ?_⟩
  rw [hmisses.recorded, hpasses.clean]

/-- What comes behind a failure is not reached. -/
theorem bind {action : ParserM σ α} {next : α → ParserM σ β}
    (h : (action.run p).Misses p illegal rest) :
    ((action >>= next).run p).Misses p illegal rest := by
  obtain ⟨after, hrun, hmisses⟩ := h
  exact ⟨after, by rw [run_bind, hrun], hmisses⟩

theorem current {next : Token → ParserM σ β}
    (h : ((next p.current).run p).Misses p illegal rest) :
    ((ParserM.current >>= next).run p).Misses p illegal rest :=
  h

theorem get {next : Parser σ → ParserM σ β} (h : ((next p).run p).Misses p illegal rest) :
    ((ParserM.get >>= next).run p).Misses p illegal rest :=
  h

theorem peekIs {kind : TokenKind} {next : Bool → ParserM σ β}
    (h : ((next (decide (p.peek.kind = kind))).run p).Misses p illegal rest) :
    ((ParserM.peekIs kind >>= next).run p).Misses p illegal rest :=
  h

theorem advance {next : Unit → ParserM σ β}
    (h : ((next ()).run p.advance).Misses p.advance illegal rest) :
    ((ParserM.advance >>= next).run p).Misses p illegal rest :=
  of_passes (.advance p) h

theorem announce {event : Event} {next : Unit → ParserM σ β}
    (h : ((next ()).run (p.write (.event event))).Misses (p.write (.event event)) illegal rest) :
    ((ParserM.announce event >>= next).run p).Misses p illegal rest :=
  of_passes (.write p _) h

theorem expect {kind : TokenKind} {next : Unit → ParserM σ β} (hkind : p.peek.kind = kind)
    (h : ((next ()).run p.advance).Misses p.advance illegal rest) :
    ((ParserM.expect kind >>= next).run p).Misses p illegal rest := by
  rw [run_bind, run_expect, if_pos hkind]
  exact of_passes (.advance p) h

/-- A failure behind a goal that can be reached. -/
theorem of_reaches {outcome : Outcome σ α} {cost : Nat} {goal : Parser σ → Outcome σ α}
    {post : Parser σ → Prop} (h : outcome.Reaches p cost goal post)
    (hdepth : p.depth + cost ≤ maxNesting)
    (hnext : ∀ q, p.Passes q → post q → (goal q).Misses q illegal rest) :
    outcome.Misses p illegal rest := by
  obtain ⟨q, hq, hpost, hrun⟩ := h.within hdepth
  rw [hrun]
  exact of_passes hq (hnext q hq hpost)

/-- A failure behind an action that reaches its value. -/
theorem behind {action : ParserM σ α} {next : α → ParserM σ β} {value : α} {cost : Nat}
    {post : Parser σ → Prop} (h : (action.run p).Reaches p cost (.ok value) post)
    (hdepth : p.depth + cost ≤ maxNesting)
    (hnext : ∀ q, p.Passes q → post q → ((next value).run q).Misses q illegal rest) :
    ((action >>= next).run p).Misses p illegal rest := by
  obtain ⟨q, hq, hpost, hrun⟩ := h.within hdepth
  rw [run_bind, hrun]
  exact of_passes hq (hnext q hq hpost)

/-- A failure one level further in is a failure, and the level is left. -/
theorem nested {action : ParserM σ α} (hdepth : p.depth < maxNesting)
    (h : (action.run { p with depth := p.depth + 1 }).Misses { p with depth := p.depth + 1 }
      illegal rest) :
    ((ParserM.nested action).run p).Misses p illegal rest := by
  obtain ⟨after, hrun, hmisses⟩ := h
  refine ⟨after.leaveNesting, ?_, hmisses.toFollows.leaveNesting, hmisses.ahead,
    hmisses.recorded⟩
  rw [run_nested, if_pos hdepth, hrun]
  rfl

end Outcome.Misses

/-! ## Expressions -/

variable {options : Options} {illegal : Token}

/-- In front of some tokens of a phrase and an illegal one, reading an operation fails at it. -/
def Phrase.Misses (phrase : Phrase) (front : List Token) (σ : Type) [TokenSource σ]
    (options : Options) (illegal : Token) : Prop :=
  ∀ (limit : Precedence) {p : Parser σ} {rest : List Token},
    limit.level < phrase.level (.standard options) → p.Prepared (.standard options) →
    p.depth + (phrase.nesting - 1) ≤ maxNesting → p.input = front ++ illegal :: rest →
    ((unbounded.operation limit).run p).Misses p illegal rest

/-- Then reading an expression fails there as well. -/
theorem Phrase.Misses.expression {phrase : Phrase} {front : List Token}
    (h : phrase.Misses front σ options illegal) (limit : Precedence) {p : Parser σ}
    {rest : List Token} (hlimit : limit.level < phrase.level (.standard options))
    (hp : p.Prepared (.standard options)) (hdepth : p.depth + phrase.nesting ≤ maxNesting)
    (hinput : p.input = front ++ illegal :: rest) :
    ((unbounded.expression limit).run p).Misses p illegal rest := by
  have hpos := phrase.nesting_pos
  have hinner : p.depth < maxNesting := by omega
  rw [unbounded_expression hp.keepsEnd]
  refine .nested hinner (h limit hlimit ⟨⟨hp.tables, hp.strict⟩, hinner⟩ ?_ hinput)
  simp only
  omega

theorem Phrase.Misses.whole {phrase : Phrase} {front : List Token} {next : TokenKind}
    (h : phrase.Misses front σ options illegal) {p : Parser σ}
    {rest : List Token} (hfits : phrase.Fits (.standard options) next)
    (hp : p.Prepared (.standard options)) (hdepth : p.depth + phrase.nesting ≤ maxNesting)
    (hinput : p.input = front ++ illegal :: rest) :
    ((unbounded.expression .lowest).run p).Misses p illegal rest :=
  h.expression .lowest hfits.level_pos hp hdepth hinput

/-- A rule that fails behind the first token of an operand. -/
theorem Phrase.misses_of_operand {phrase : Phrase} {first : Token} {front : List Token}
    (rule : OperandRule) (hrule : Tables.standardOperand? first.kind = some rule)
    (h : ∀ {p : Parser σ} {rest}, p.Prepared (.standard options) →
      p.depth + (phrase.nesting - 1) ≤ maxNesting → p.ahead = front ++ illegal :: rest →
      ((unbounded.operandBy rule).run p).Misses p illegal rest) :
    phrase.Misses (first :: front) σ options illegal := by
  intro limit p rest _ hp hdepth hinput
  obtain ⟨hcurrent, hahead⟩ := Parser.input_eq_cons hinput
  have hfound : p.tables.operand? p.current.kind = some rule := by
    rw [hp.tables.operand, hcurrent, hrule]
  refine .get (.announce ?_)
  simp only [hfound]
  exact .bind (h (hp.write _) hdepth hahead)

theorem Phrase.misses_start (hillegal : illegal.kind = .illegal) (phrase : Phrase) :
    phrase.Misses [] σ options illegal := by
  intro limit p rest _ hp _ hinput
  obtain ⟨hcurrent, hahead⟩ := Parser.input_eq_cons hinput
  have hfound : p.tables.operand? p.current.kind = none := by
    rw [hp.tables.operand, hcurrent, hillegal]
    rfl
  refine .get (.announce ?_)
  simp only [hfound]
  refine ⟨_, run_fail _, .record _ _ _, hahead, ?_⟩
  simp only [Parser.record, Parser.write, hcurrent, hillegal]

theorem Phrase.misses_group {opening closing : Token} {inner : Phrase} {front : List Token}
    {next : TokenKind} (hfits : (group opening inner closing).Fits (.standard options) next)
    (h : inner.Misses front σ options illegal) :
    (group opening inner closing).Misses (opening :: front) σ options illegal := by
  obtain ⟨hopen, hinner, -⟩ := hfits
  refine misses_of_operand .grouping (by rw [hopen]; rfl) fun hp hdepth hahead => ?_
  rw [Phrase.nesting, Nat.add_sub_cancel_left] at hdepth
  exact .advance (.bind (h.whole hinner hp.advance hdepth (by rw [Parser.input_advance, hahead])))

theorem Phrase.misses_unary {operator : Token} {right : Phrase} {front : List Token}
    {next : TokenKind} (hfits : (unary operator right).Fits (.standard options) next)
    (h : right.Misses front σ options illegal) :
    (unary operator right).Misses (operator :: front) σ options illegal := by
  obtain ⟨hoperator, hlevel, -⟩ := hfits
  have hrule : Tables.standardOperand? operator.kind = some .unary := by
    rcases hoperator with hkind | hkind <;> rw [hkind] <;> rfl
  refine misses_of_operand .unary hrule fun hp hdepth hahead => ?_
  rw [Phrase.nesting, Nat.add_sub_cancel_left] at hdepth
  exact .current (.advance (.bind
    (h.expression .unary hlevel hp.advance hdepth (by rw [Parser.input_advance, hahead]))))

/-- What fails behind an operator fails behind its left side, which is read in full. -/
theorem Phrase.misses_behind {left : Phrase} {operator : Token} {back rest : List Token}
    {level : Nat} {rule : OperatorRule} {limit : Precedence} {p : Parser σ}
    (hleft : left.Fits (.standard options) operator.kind)
    (hrule : (Grammar.standard options).operator? operator.kind = some (level, rule))
    (hreach : level ≤ left.reach (.standard options)) (hlimit : limit.level < level)
    (hp : p.Prepared (.standard options)) (hdepth : p.depth + (left.nesting - 1) ≤ maxNesting)
    (hinput : p.input = left.tokens ++ operator :: back)
    (h : ∀ (precedence : Precedence) (q : Parser σ), precedence.level = level →
      q.Prepared (.standard options) → q.depth = p.depth → q.ahead = back →
      ((unbounded.operatorBy left.tree precedence rule).run q).Misses q illegal rest) :
    ((unbounded.operation limit).run p).Misses p illegal rest := by
  have hend : operator.kind ≠ .endOfInput := by
    intro hkind
    rw [hkind] at hrule
    simp [Grammar.operator?, Grammar.level?_endOfInput] at hrule
  have hstarts : left.Starts (.standard options) p (operator :: back) :=
    ⟨hp, hinput, hleft, .inl (hleft.closed hend)⟩
  have hstop : (Grammar.standard options).strength (leadKind .endOfInput (operator :: back)) ≤
      left.reach (.standard options) := by
    rw [leadKind_cons, Grammar.strength, hrule]
    exact hreach
  have hleftLevel := left.reach_le_level (.standard options)
  -- the left side is read up to the operator, and the operator is the one to go on with
  refine .of_reaches (left.operates _ limit (by omega) hstop hstarts) hdepth fun q hq hbehind => ?_
  have hq' := hp.passes hq
  obtain ⟨rfl, hahead⟩ := Parser.ahead_eq_cons hbehind.ahead
  obtain ⟨precedence, hprecedence, hrun⟩ := run_operators_of_goes limit hq' hrule hlimit left.tree
  rw [hrun]
  exact .advance (.bind (h precedence q.advance hprecedence hq'.advance hq.depth hahead))

/-- The left side is read by the same operation as the whole, and so it fails in the same way. -/
theorem Phrase.misses_left {left right : Phrase} {operator : Token} {front : List Token}
    {next : TokenKind} (hfits : (binary left operator right).Fits (.standard options) next)
    (h : left.Misses front σ options illegal) :
    (binary left operator right).Misses front σ options illegal := by
  intro limit p rest hlimit hp hdepth hinput
  obtain ⟨level, hlevel, hreach, -⟩ := hfits
  have hleftLevel := left.reach_le_level (.standard options)
  rw [Phrase.level, hlevel, Option.getD_some] at hlimit
  rw [Phrase.nesting] at hdepth
  exact h limit (by omega) hp (by omega) hinput

theorem Phrase.misses_right {left right : Phrase} {operator : Token} {front : List Token}
    {next : TokenKind} (hfits : (binary left operator right).Fits (.standard options) next)
    (h : right.Misses front σ options illegal) :
    (binary left operator right).Misses (left.tokens ++ operator :: front) σ options illegal := by
  intro limit p rest hlimit hp hdepth hinput
  obtain ⟨level, hlevel, hreach, hleft, hrightLevel, -⟩ := hfits
  rw [Phrase.level, hlevel, Option.getD_some] at hlimit
  rw [Phrase.nesting] at hdepth
  rw [List.append_assoc, List.cons_append] at hinput
  refine misses_behind hleft (Grammar.operator?_of_level hlevel) hreach hlimit hp (by omega) hinput
    fun precedence q hprecedence hq hqdepth hahead => .current (.advance (.bind ?_))
  exact h.expression precedence (by omega) hq.advance
    (show q.depth + right.nesting ≤ maxNesting by omega) (by rw [Parser.input_advance, hahead])

/-! ### Calls -/

/-- In front of some tokens of arguments and an illegal one, reading arguments fails at it. -/
def Arguments.Misses (arguments : Arguments) (front : List Token) (σ : Type) [TokenSource σ]
    (options : Options) (illegal : Token) : Prop :=
  ∀ {p : Parser σ} {rest : List Token}, p.Prepared (.standard options) →
    p.depth + arguments.nesting ≤ maxNesting → p.ahead = front ++ illegal :: rest →
    (unbounded.argumentList.run p).Misses p illegal rest

def FurtherArguments.Misses (further : FurtherArguments) (front : List Token) (σ : Type)
    [TokenSource σ] (options : Options) (illegal : Token) : Prop :=
  ∀ {p : Parser σ} {rest : List Token}, p.Prepared (.standard options) →
    p.depth + further.nesting ≤ maxNesting → p.ahead = front ++ illegal :: rest →
    (unbounded.arguments.run p).Misses p illegal rest

theorem Phrase.misses_callee {callee : Phrase} {opening closing : Token} {arguments : Arguments}
    {front : List Token} {next : TokenKind}
    (hfits : (call callee opening arguments closing).Fits (.standard options) next)
    (h : callee.Misses front σ options illegal) :
    (call callee opening arguments closing).Misses front σ options illegal := by
  intro limit p rest hlimit hp hdepth hinput
  obtain ⟨-, hreach, -⟩ := hfits
  have hcalleeLevel := callee.reach_le_level (.standard options)
  have hlimit : limit.level < 6 := hlimit
  rw [Phrase.nesting] at hdepth
  exact h limit (by omega) hp (by omega) hinput

theorem Phrase.misses_arguments {callee : Phrase} {opening closing : Token}
    {arguments : Arguments} {front : List Token} {next : TokenKind}
    (hfits : (call callee opening arguments closing).Fits (.standard options) next)
    (h : arguments.Misses front σ options illegal) :
    (call callee opening arguments closing).Misses (callee.tokens ++ opening :: front) σ options
      illegal := by
  intro limit p rest hlimit hp hdepth hinput
  obtain ⟨hcalls, hreach, hcallee, hopen, -⟩ := hfits
  have hlimit : limit.level < 6 := hlimit
  rw [Phrase.nesting] at hdepth
  rw [List.append_assoc, List.cons_append] at hinput
  have hrule : (Grammar.standard options).operator? opening.kind = some (6, .call) := by
    rw [hopen, Grammar.operator?, if_pos ⟨hcalls, rfl⟩]
  rw [← hopen] at hcallee
  exact misses_behind hcallee hrule hreach hlimit hp (by omega) hinput
    fun precedence q _ hq hqdepth hahead => .bind (h hq (by omega) hahead)

/-- What a phrase with an illegal token in it starts with closes no parenthesis, starts no statement
of its own and ends no region. -/
theorem Phrase.Opens.lead {phrase : Phrase} {front : List Token} {next kind : TokenKind}
    (h : phrase.Opens front) (hfits : phrase.Fits (.standard options) next)
    (hillegal : illegal.kind = .illegal) {rest : List Token}
    (hkind : leadKind .endOfInput (front ++ illegal :: rest) = kind) :
    kind ≠ .closeParen ∧ Tables.standardStatement? kind = none ∧
      ∀ region : Region, region.endsAt kind = false := by
  subst hkind
  cases front with
  | nil =>
    rw [List.nil_append, leadKind_cons, hillegal]
    exact ⟨by decide, rfl, fun region => by cases region <;> rfl⟩
  | cons first front =>
    obtain ⟨token, more, htokens, -⟩ := h.exists_token hfits
    obtain ⟨rule, hrule⟩ := hfits.operand .endOfInput []
    rw [htokens, List.cons_append, List.cons_append, leadKind_cons] at hrule
    rw [List.cons_append, leadKind_cons]
    obtain ⟨hstatement, hends, -⟩ := Tables.of_standardOperand? hrule
    refine ⟨fun hclose => ?_, hstatement, hends⟩
    rw [hclose] at hrule
    cases hrule

theorem FurtherArguments.Opens.leadKind {further : FurtherArguments} {front : List Token}
    {g : Grammar} (h : further.Opens front) (hfits : further.Fits g) (rest : List Token) :
    leadKind .endOfInput (front ++ rest) = further.lead := by
  cases h with
  | argument => exact hfits.1
  | later => exact hfits.1

theorem Arguments.misses_first {first : Phrase} {further : FurtherArguments} {front : List Token}
    (hillegal : illegal.kind = .illegal) (hopens : first.Opens front)
    (hfits : (some first further).Fits (.standard options))
    (h : first.Misses front σ options illegal) :
    (some first further).Misses front σ options illegal := by
  intro p rest hp hdepth hahead
  obtain ⟨hfirst, -⟩ := hfits
  have hpeek : p.peek.kind ≠ .closeParen := by
    rw [← Parser.leadKind_ahead, hahead]
    exact (hopens.lead hfirst hillegal rfl).1
  rw [Arguments.nesting] at hdepth
  refine .peekIs ?_
  simp only [hpeek, decide_false, Bool.false_eq_true, if_false]
  exact .advance (.bind (h.whole hfirst hp.advance (show p.depth + _ ≤ maxNesting by omega)
    (by rw [Parser.input_advance, hahead])))

/-- What fails in the further arguments fails behind an argument in front of them. -/
theorem FurtherArguments.Misses.behind {argument : Phrase} {further : FurtherArguments}
    {front rest : List Token} (h : further.Misses front σ options illegal)
    (hopens : further.Opens front) (hargument : argument.Fits (.standard options) further.lead)
    (hends : ¬(Grammar.standard options).Continues further.lead)
    (hfurther : further.Fits (.standard options)) {p : Parser σ}
    (hp : p.Prepared (.standard options))
    (hdepth : p.depth + max argument.nesting further.nesting ≤ maxNesting)
    (hahead : p.ahead = argument.tokens ++ (front ++ illegal :: rest))
    {next : Expression → List Expression → ParserM σ α} :
    ((unbounded.expression .lowest >>= fun first =>
      unbounded.arguments >>= next first).run p.advance).Misses p.advance illegal rest := by
  have hlead := hopens.leadKind hfurther (illegal :: rest)
  have hstarts : argument.Starts (.standard options) p.advance (front ++ illegal :: rest) :=
    Phrase.starts_of_ahead hp hahead (hlead ▸ hargument) (hlead ▸ further.lead_ne)
  have hread := (argument.operates _).whole (hlead ▸ hends) hstarts
  refine .behind hread (show p.depth + _ ≤ maxNesting by omega) fun q hq hbehind =>
    .bind (h (hp.advance.passes hq) ?_ hbehind.ahead)
  rw [hq.depth]
  exact show p.depth + _ ≤ maxNesting by omega

theorem Arguments.misses_further {first : Phrase} {further : FurtherArguments}
    {front : List Token} (hopens : further.Opens front)
    (hfits : (some first further).Fits (.standard options))
    (h : further.Misses front σ options illegal) :
    (some first further).Misses (first.tokens ++ front) σ options illegal := by
  intro p rest hp hdepth hahead
  obtain ⟨hfirst, hends, hfurther⟩ := hfits
  rw [Arguments.nesting] at hdepth
  rw [List.append_assoc] at hahead
  have hpeek : p.peek.kind ≠ .closeParen := by
    obtain ⟨rule, hrule⟩ := hfirst.operand .endOfInput (front ++ illegal :: rest)
    rw [← hahead, Parser.leadKind_ahead] at hrule
    intro hkind
    rw [hkind] at hrule
    cases hrule
  refine .peekIs ?_
  simp only [hpeek, decide_false, Bool.false_eq_true, if_false]
  exact .advance (h.behind hopens hfirst hends hfurther hp hdepth hahead)

theorem FurtherArguments.misses_argument {comma : Token} {argument : Phrase}
    {further : FurtherArguments} {front : List Token}
    (hfits : (some comma argument further).Fits (.standard options))
    (h : argument.Misses front σ options illegal) :
    (some comma argument further).Misses (comma :: front) σ options illegal := by
  intro p rest hp hdepth hahead
  obtain ⟨hcomma, hargument, -⟩ := hfits
  rw [List.cons_append] at hahead
  obtain ⟨rfl, hafter⟩ := Parser.ahead_eq_cons hahead
  rw [FurtherArguments.nesting] at hdepth
  rw [unbounded_arguments hp.keepsEnd]
  refine .peekIs ?_
  simp only [hcomma, decide_true, if_true]
  exact .advance (.advance (.bind (h.whole hargument hp.advance.advance
    (show p.depth + _ ≤ maxNesting by omega) (by rw [Parser.input_advance, hafter]))))

theorem FurtherArguments.misses_later {comma : Token} {argument : Phrase}
    {further : FurtherArguments} {front : List Token} (hopens : further.Opens front)
    (hfits : (some comma argument further).Fits (.standard options))
    (h : further.Misses front σ options illegal) :
    (some comma argument further).Misses (comma :: (argument.tokens ++ front)) σ options
      illegal := by
  intro p rest hp hdepth hahead
  obtain ⟨hcomma, hargument, hends, hfurther⟩ := hfits
  rw [List.cons_append, List.append_assoc] at hahead
  obtain ⟨rfl, hafter⟩ := Parser.ahead_eq_cons hahead
  rw [FurtherArguments.nesting] at hdepth
  rw [unbounded_arguments hp.keepsEnd]
  refine .peekIs ?_
  simp only [hcomma, decide_true, if_true]
  exact .advance (.advance (h.behind hopens hargument hends hfurther hp.advance hdepth hafter))

/-! ### All trees -/

mutual

/-- Wherever an expression starts in a phrase, reading fails at an illegal token there. -/
theorem Phrase.Opens.misses (hillegal : illegal.kind = .illegal) {phrase : Phrase}
    {front : List Token} {next : TokenKind} (h : phrase.Opens front)
    (hfits : phrase.Fits (.standard options) next) : phrase.Misses front σ options illegal := by
  cases h with
  | start => exact Phrase.misses_start hillegal phrase
  | group hinner => exact Phrase.misses_group hfits (hinner.misses hillegal hfits.2.1)
  | unary hright => exact Phrase.misses_unary hfits (hright.misses hillegal hfits.2.2)
  | left hleft =>
    obtain ⟨_, -, -, hleftFits, -⟩ := id hfits
    exact Phrase.misses_left hfits (hleft.misses hillegal hleftFits)
  | right hright =>
    obtain ⟨_, -, -, -, -, hrightFits⟩ := id hfits
    exact Phrase.misses_right hfits (hright.misses hillegal hrightFits)
  | callee hcallee => exact Phrase.misses_callee hfits (hcallee.misses hillegal hfits.2.2.1)
  | arguments harguments =>
    exact Phrase.misses_arguments hfits (harguments.misses hillegal hfits.2.2.2.2.1)

theorem Arguments.Opens.misses (hillegal : illegal.kind = .illegal) {arguments : Arguments}
    {front : List Token} (h : arguments.Opens front)
    (hfits : arguments.Fits (.standard options)) :
    arguments.Misses front σ options illegal := by
  cases h with
  | first hfirst =>
    exact Arguments.misses_first hillegal hfirst hfits (hfirst.misses hillegal hfits.1)
  | further hfurther =>
    exact Arguments.misses_further hfurther hfits (hfurther.misses hillegal hfits.2.2)

theorem FurtherArguments.Opens.misses (hillegal : illegal.kind = .illegal)
    {further : FurtherArguments} {front : List Token} (h : further.Opens front)
    (hfits : further.Fits (.standard options)) : further.Misses front σ options illegal := by
  cases h with
  | argument hargument =>
    exact FurtherArguments.misses_argument hfits (hargument.misses hillegal hfits.2.1)
  | later hlater =>
    exact FurtherArguments.misses_later hlater hfits (hlater.misses hillegal hfits.2.2.2)

end

/-! ## Statements -/

section Statements

variable {p : Parser σ} {semicolon : Token} {front rest : List Token} {next : TokenKind}

/-- A statement whose value is missed takes the semicolon that is still ahead. -/
theorem Outcome.Misses.statementValue (hsemicolon : semicolon.kind = .semicolon)
    (h : ((unbounded.expression .lowest).run p).Misses p illegal (semicolon :: rest)) :
    (unbounded.statementValue.run p).Misses p illegal rest := by
  obtain ⟨after, hrun, hmisses⟩ := h
  obtain ⟨rfl, hahead⟩ := Parser.ahead_eq_cons hmisses.ahead
  refine ⟨after.advance, ?_, hmisses.toFollows.trans (.advance after), hahead, hmisses.recorded⟩
  rw [Routines.statementValue, run_bind, run_attempt, hrun]
  simp only [run_finishStatement_none, if_pos hsemicolon]

/-- Wherever an expression starts in a statement, an illegal token and a semicolon there make it
fail, and both are taken. -/
theorem Clause.Opens.misses {clause : Clause} (hillegal : illegal.kind = .illegal)
    (hsemicolon : semicolon.kind = .semicolon) (h : clause.Opens front)
    (hfits : clause.Fits (.standard options) next) (hp : p.Prepared (.standard options))
    (hdepth : p.depth + clause.nesting ≤ maxNesting)
    (hinput : p.input = front ++ illegal :: semicolon :: rest) :
    (unbounded.statement.run p).Misses p illegal rest := by
  rw [unbounded_statement hp.keepsEnd]
  refine .get (.announce ?_)
  have hp' := hp.write (.event (.statement p.current.kind))
  cases h with
  | @letBinding word name assign value semi front hvalue =>
    obtain ⟨hword, hname, hassign, hvalueFits, -⟩ := hfits
    obtain ⟨rfl, hahead⟩ := Parser.input_eq_cons hinput
    obtain ⟨rfl, hahead₁⟩ := Parser.ahead_eq_cons hahead
    obtain ⟨rfl, hahead₂⟩ := Parser.ahead_eq_cons hahead₁
    have hfound : p.tables.statement? p.current.kind = some .letBinding := by
      rw [hp.tables.statement, hword]
      rfl
    simp only [hfound]
    refine .expect hname (.current (.expect hassign (.advance (.bind
      (.statementValue hsemicolon ?_)))))
    exact (hvalue.misses hillegal hvalueFits).whole hvalueFits hp'.advance.advance.advance hdepth
      (Eq.trans (Parser.input_advance _) hahead₂)
  | @returning word value semi front hvalue =>
    obtain ⟨hword, hvalueFits, -⟩ := hfits
    obtain ⟨rfl, hahead⟩ := Parser.input_eq_cons hinput
    have hfound : p.tables.statement? p.current.kind = some .returning := by
      rw [hp.tables.statement, hword]
      rfl
    simp only [hfound]
    refine .advance (.bind (.statementValue hsemicolon ?_))
    exact (hvalue.misses hillegal hvalueFits).whole hvalueFits hp'.advance hdepth
      (Eq.trans (Parser.input_advance _) hahead)
  | @expression value semi front hvalue =>
    obtain ⟨hvalueFits, -⟩ := hfits
    have hfound : p.tables.statement? p.current.kind = none := by
      rw [hp.tables.statement, ← Parser.leadKind_input, hinput]
      exact (hvalue.lead hvalueFits hillegal rfl).2.1
    simp only [hfound]
    refine .bind (.statementValue hsemicolon ?_)
    exact (hvalue.misses hillegal hvalueFits).whole hvalueFits hp' hdepth hinput

/-- A statement that is missed is left out of those of a stretch. -/
theorem Clause.Opens.statements {clause : Clause} (region : Region)
    (hillegal : illegal.kind = .illegal) (hsemicolon : semicolon.kind = .semicolon)
    (h : clause.Opens front) (hfits : clause.Fits (.standard options) next)
    (hp : p.Prepared (.standard options)) (hdepth : p.depth + clause.nesting ≤ maxNesting)
    (hinput : p.input = front ++ illegal :: semicolon :: rest) :
    ∃ q, p.Follows q ∧ q.input = rest ∧
      q.diagnostics = p.diagnostics.push ⟨.missingOperand .illegal, illegal.span.start⟩ ∧
      (unbounded.statements region).run p = (unbounded.statements region).run q := by
  have hgoes : region.endsAt p.current.kind = false := by
    rw [← Parser.leadKind_input, hinput]
    cases h with
    | letBinding =>
      rw [List.cons_append, leadKind_cons, hfits.1]
      cases region <;> rfl
    | returning =>
      rw [List.cons_append, leadKind_cons, hfits.1]
      cases region <;> rfl
    | expression hvalue => exact (hvalue.lead hfits.1 hillegal rfl).2.2 region
  obtain ⟨after, hrun, hmisses⟩ := h.misses hillegal hsemicolon hfits hp hdepth hinput
  refine ⟨after.advance, hmisses.toFollows.trans (.advance after),
    (Parser.input_advance after).trans hmisses.ahead, hmisses.recorded, ?_⟩
  rw [unbounded_statements hp.keepsEnd, Routines.statementsStep, run_bind, run_current]
  simp only [hgoes, Bool.false_eq_true, if_false]
  rw [run_bind, run_attempt, hrun]
  simp only [run_bind, run_advance, Option.toList_none, List.nil_append]
  cases (unbounded.statements region).run after.advance <;> rfl

end Statements

/-! ## Programs in segments -/

/-- Tokens without braces that are one statement with its semicolon, with nothing wrong in it. -/
structure WritesOne (options : Options) (tokens : List Token) (value : Statement) : Prop where
  noEnd : NoEnd tokens
  flat : Flat tokens
  last : ∃ last ∈ tokens.getLast?, last.kind = .semicolon
  statements : (parseTokens tokens options).program.statements = [value]
  clean : (parseTokens tokens options).diagnostics = []

instance (options : Options) (tokens : List Token) (value : Statement) :
    Decidable (WritesOne options tokens value) :=
  decidable_of_iff ((∀ token ∈ tokens, token.kind ≠ .endOfInput) ∧
    (∀ token ∈ tokens, token.kind ≠ .openCurly ∧ token.kind ≠ .closeCurly) ∧
    (∃ last ∈ tokens.getLast?, last.kind = .semicolon) ∧
    (parseTokens tokens options).program.statements = [value] ∧
    (parseTokens tokens options).diagnostics = [])
    ⟨fun ⟨noEnd, flat, last, statements, clean⟩ => ⟨noEnd, flat, last, statements, clean⟩,
      fun h => ⟨h.noEnd, h.flat, h.last, h.statements, h.clean⟩⟩

/-- A part of a program: a statement, or one that is cut off in front of an operand, with an illegal
token and a semicolon instead of the rest. -/
inductive Segment where
  | good (tokens : List Token) (value : Statement)
  | broken (front : List Token) (illegal semicolon : Token)

namespace Segment

def tokens : Segment → List Token
  | good tokens _ => tokens
  | broken front illegal semicolon => front ++ [illegal, semicolon]

/-- The statement of a segment, if it is not lost. -/
def statement? : Segment → Option Statement
  | good _ value => some value
  | broken _ _ _ => none

/-- What is to be recorded for a segment. -/
def diagnostic? : Segment → Option Diagnostic
  | good _ _ => none
  | broken _ illegal _ => some ⟨.missingOperand .illegal, illegal.span.start⟩

/-- Whether the statement of a segment is one, or was one until it was cut off in front of a token
at which an operand begins. -/
def Valid (options : Options) : Segment → Prop
  | good tokens value => WritesOne options tokens value
  | broken front illegal semicolon =>
    illegal.kind = .illegal ∧ semicolon.kind = .semicolon ∧
      ∃ token rest value, WritesOne options (front ++ token :: rest) value ∧
        BeginsOperand front token

end Segment

/-- Tokens of one statement are those of a tree with its semicolon, not nested too deeply. -/
theorem WritesOne.exists_clause {options : Options} {tokens : List Token} {value : Statement}
    (h : WritesOne options tokens value) :
    ∃ clause : Clause, clause.Fits (.standard options) .endOfInput ∧ clause.tokens = tokens ∧
      clause.tree = value ∧ clause.semicolon ≠ none ∧ clause.nesting ≤ maxNesting := by
  obtain ⟨clauses, hfit, htokens, htrees, hlast, hnesting⟩ :=
    exists_clauses_of_parseTokens h.noEnd h.clean (not_unfinished h.last h.flat.braces)
  rw [h.statements] at htrees
  obtain ⟨clause, rfl, htree⟩ := eq_singleton_of_clausesTrees htrees
  refine ⟨clause, hfit.1, ?_, htree, hlast clause rfl,
    clausesNesting_le_iff.1 hnesting clause (List.mem_singleton_self _)⟩
  rw [← htokens, clausesTokens, clausesTokens, List.append_nil]

namespace Segment

variable {options : Options} {p : Parser σ} {rest : List Token}

theorem Valid.noEnd {segment : Segment} (h : segment.Valid options) : NoEnd segment.tokens := by
  cases segment with
  | good tokens value => exact WritesOne.noEnd h
  | broken front illegal semicolon =>
    obtain ⟨hillegal, hsemicolon, token, rest, value, hwrites, -⟩ := h
    refine noEnd_append.2 ⟨(noEnd_append.1 hwrites.noEnd).1, ?_⟩
    simp [hillegal, hsemicolon]

/-- What one segment comes to: its statement is read, or its diagnostic is recorded, and what is
read behind it is what is read from there. -/
theorem Valid.statements {segment : Segment} (region : Region) (h : segment.Valid options)
    (hp : p.Ready (.standard options)) (hdepth : p.depth = 0)
    (hinput : p.input = segment.tokens ++ rest) :
    ∃ q, p.Follows q ∧ q.input = rest ∧
      q.diagnostics.toList = p.diagnostics.toList ++ segment.diagnostic?.toList ∧
      ∀ {more after}, (unbounded.statements region).run q = .ok more after →
        (unbounded.statements region).run p =
          .ok (segment.statement?.toList ++ more) after := by
  have hprepared : p.Prepared (.standard options) := ⟨hp.toObeys, by omega⟩
  cases segment with
  | good tokens value =>
    obtain ⟨clause, hfits, rfl, rfl, hsemicolon, hnesting⟩ := WritesOne.exists_clause h
    have hlast : ∀ last ∈ [clause].getLast?, last.semicolon ≠ none := fun last hmem => by
      obtain rfl : clause = last := Option.some.inj hmem
      exact hsemicolon
    have hfit : ClausesFit (.standard options) .endOfInput [clause] := ⟨hfits, trivial⟩
    obtain ⟨q, hpass, hleft, hmore⟩ := run_statements_append region hprepared hp.endStays
      (by simpa [clausesTokens, tokens] using hinput) hfit hlast
      (by simpa [hdepth, clausesNesting] using hnesting)
    refine ⟨q, hpass.toFollows, hleft, ?_, hmore⟩
    rw [hpass.clean]
    exact (List.append_nil _).symm
  | broken front illegal semicolon =>
    obtain ⟨hillegal, hsemicolon, token, behind, value, hwrites, hbegins⟩ := h
    -- the statement that it would have been shows the way to the place
    obtain ⟨clause, hfits, htokens, -, -, hnesting⟩ := hwrites.exists_clause
    have hopens := hfits.opens (htokens ▸ hwrites.flat) htokens hbegins
    have hbroken : p.input = front ++ illegal :: semicolon :: rest := by
      rw [hinput, tokens, List.append_assoc]
      rfl
    obtain ⟨q, hfollows, hleft, hrecorded, hsame⟩ :=
      hopens.statements region hillegal hsemicolon hfits hprepared (by omega) hbroken
    refine ⟨q, hfollows, hleft, ?_, fun hrun => hsame.trans hrun⟩
    rw [hrecorded, Array.toList_push]
    rfl

/-- Segments in a row are read up to where the stretch they fill is over. -/
theorem statements_of_valid {segments : List Segment} (region : Region)
    (h : ∀ segment ∈ segments, segment.Valid options) (hp : p.Ready (.standard options))
    (hdepth : p.depth = 0) (hinput : p.input = segments.flatMap tokens ++ rest)
    (hends : region.endsAt (leadKind .endOfInput rest) = true) :
    ∃ after, (unbounded.statements region).run p = .ok (segments.filterMap statement?) after ∧
      after.diagnostics.toList = p.diagnostics.toList ++ segments.filterMap diagnostic? := by
  -- between two segments no level of nesting is open, whether the first one is broken or not
  induction segments generalizing p with
  | nil =>
    have hover : region.endsAt p.current.kind = true := by
      rw [← Parser.leadKind_input, hinput]
      exact hends
    have hrun : ((routines 1).statements region).run p = .ok [] p := run_statements_of_ends hover 0
    exact ⟨p, run_unbounded_statements hrun, (List.append_nil _).symm⟩
  | cons segment segments ih =>
    obtain ⟨hsegment, hsegments⟩ := List.forall_mem_cons.1 h
    rw [List.flatMap_cons, List.append_assoc] at hinput
    obtain ⟨q, hfollows, hleft, hrecorded, hmore⟩ := hsegment.statements region hp hdepth hinput
    obtain ⟨after, hrun, hdiagnostics⟩ :=
      ih hsegments (hp.follows hfollows) (hfollows.depth.trans hdepth) hleft
    refine ⟨after, ?_, ?_⟩
    · rw [hmore hrun]
      cases segment <;> rfl
    · rw [hdiagnostics, hrecorded, List.append_assoc]
      cases segment <;> rfl

end Segment

/-- What comes of parsing segments: their statements, but for those that are lost, and a diagnostic
for each of these. -/
structure Parse.Recovers (result : Parse) (segments : List Segment) : Prop where
  statements : result.program.statements = segments.filterMap Segment.statement?
  diagnostics : result.diagnostics = segments.filterMap Segment.diagnostic?

/-- A supply of the tokens of segments is parsed into what is not lost. -/
theorem parse_recovers {supply : σ} {options : Options} {segments : List Segment}
    (hend : (Parser.ofSupply supply options).EndStays)
    (hcontent : TokenSource.content supply = segments.flatMap Segment.tokens)
    (hvalid : ∀ segment ∈ segments, segment.Valid options) :
    (parse supply options).Recovers segments := by
  obtain ⟨statements, last, hrun, hprogram, hdiagnostics⟩ :=
    parse_eq_of_statements supply options
  let parser := Parser.ofSupply supply options
  let started := (parser.write .openedProgram).write .entered
  have hfollows : parser.Follows started := (Parser.Follows.write parser _).trans (.write _ _)
  have hready : started.Ready (.standard options) :=
    ⟨(obeys_ofSupply supply options).follows hfollows, hfollows.endStays hend⟩
  have hinput : started.input = segments.flatMap Segment.tokens ++ [] := by
    rw [List.append_nil, ← hcontent]
    exact Parser.input_ofSupply supply options
  obtain ⟨after, hall, hrecorded⟩ :=
    Segment.statements_of_valid .program hvalid hready rfl hinput rfl
  cases (run_unbounded_statements hrun).symm.trans hall
  exact ⟨by rw [hprogram], by rw [hdiagnostics, hrecorded]; rfl⟩

/--
A program is made of statements without braces, each with its semicolon, and some of them are cut
off in front of an operand, wherever in them it begins, with an illegal token and a semicolon
instead of the rest. From its tokens, or a source with these tokens, exactly the other statements
are read, in order, and exactly one diagnostic is recorded for each that is cut off, in order: that
an operand is missing at its illegal token.
-/
theorem recovers_of_segments {options : Options} {segments : List Segment}
    (hvalid : ∀ segment ∈ segments, segment.Valid options) :
    (parseTokens (segments.flatMap Segment.tokens) options).Recovers segments ∧
    (∀ source file,
      (tokenize source file).filter (·.kind ≠ .endOfInput) = segments.flatMap Segment.tokens →
      (parseSource source file options).Recovers segments) := by
  have hnoEnd : NoEnd (segments.flatMap Segment.tokens) := fun token hmem => by
    obtain ⟨segment, hsegment, htoken⟩ := List.mem_flatMap.1 hmem
    exact (hvalid segment hsegment).noEnd token htoken
  constructor
  · refine parse_recovers (endStays_tokenStream options hnoEnd.noInnerEnd) ?_ hvalid
    rw [TokenStream.ofList, content_tokenStream hnoEnd.noInnerEnd, hnoEnd.filter]
  · intro source file htokens
    exact parse_recovers (endStays_scanner source file options) htokens hvalid

/-- Two statements that are cut off, one inside of the arguments of a call inside of a group and one
at its start, between two that are not. -/
def sampleRecoverySource : String :=
  "let a = f(1, (2 + b)); let c = -(d * g(e, @; @; return !x;"

def sampleRecoveryTokens : List Token :=
  (tokenize sampleRecoverySource none).dropLast

/-- What stands in the source in front of the first illegal token since the first semicolon. -/
def sampleRecoveryFront : List Token :=
  (sampleRecoveryTokens.drop 14).take 11

def sampleRecoverySegments : List Segment :=
  [.good (sampleRecoveryTokens.take 14) (.letBinding "a" (.call (.identifier "f")
      [.integer 1 "1", .binary (.integer 2 "2") "+" (.identifier "b")])),
    .broken sampleRecoveryFront ⟨.illegal, "@", ⟨⟨42, "shell"⟩, ⟨43, "shell"⟩⟩⟩
      ⟨.semicolon, ";", ⟨⟨43, "shell"⟩, ⟨44, "shell"⟩⟩⟩,
    .broken [] ⟨.illegal, "@", ⟨⟨45, "shell"⟩, ⟨46, "shell"⟩⟩⟩
      ⟨.semicolon, ";", ⟨⟨46, "shell"⟩, ⟨47, "shell"⟩⟩⟩,
    .good (sampleRecoveryTokens.drop 29) (.returning (.unary "!" (.identifier "x")))]

/-- What could have stood in the source from the first illegal token on. -/
def sampleRecoveryRest : List Token :=
  [.synthetic .bang "!", .synthetic .identifier "h", .synthetic .closeParen ")",
    .synthetic .closeParen ")", .synthetic .semicolon ";"]

theorem sampleRecoverySegments_valid :
    ∀ segment ∈ sampleRecoverySegments, segment.Valid ⟨true, true⟩ := by
  have hfirst : WritesOne ⟨true, true⟩ (sampleRecoveryTokens.take 14) (.letBinding "a"
      (.call (.identifier "f")
        [.integer 1 "1", .binary (.integer 2 "2") "+" (.identifier "b")])) := by
    decide +kernel
  have hinner : WritesOne ⟨true, true⟩ (sampleRecoveryFront ++ sampleRecoveryRest)
      (.letBinding "c" (.unary "-" (.binary (.identifier "d") "*" (.call (.identifier "g")
        [.identifier "e", .unary "!" (.identifier "h")])))) := by
    decide +kernel
  have hstart : WritesOne ⟨true, true⟩
      ([] ++ [.synthetic .identifier "h", .synthetic .semicolon ";"])
      (.expression (.identifier "h")) := by
    decide +kernel
  have hlast : WritesOne ⟨true, true⟩ (sampleRecoveryTokens.drop 29)
      (.returning (.unary "!" (.identifier "x"))) := by
    decide +kernel
  have hbegins : BeginsOperand sampleRecoveryFront (.synthetic .bang "!") := by
    unfold BeginsOperand
    decide +kernel
  have hbegins' : BeginsOperand [] (.synthetic .identifier "h") := by
    unfold BeginsOperand
    decide
  simp only [sampleRecoverySegments, List.forall_mem_cons]
  exact ⟨hfirst, ⟨rfl, rfl, _, _, _, hinner, hbegins⟩, ⟨rfl, rfl, _, _, _, hstart, hbegins'⟩, hlast,
    fun segment hmem => nomatch hmem⟩

theorem recovers_of_segments_sample :
    (∀ segment ∈ sampleRecoverySegments, segment.Valid ⟨true, true⟩) ∧
    (parseSource sampleRecoverySource none ⟨true, true⟩).program.statements =
      [.letBinding "a" (.call (.identifier "f")
        [.integer 1 "1", .binary (.integer 2 "2") "+" (.identifier "b")]),
        .returning (.unary "!" (.identifier "x"))] ∧
    (parseSource sampleRecoverySource none ⟨true, true⟩).diagnostics =
      [⟨.missingOperand .illegal, ⟨42, "shell"⟩⟩, ⟨.missingOperand .illegal, ⟨45, "shell"⟩⟩] := by
  have hvalid := sampleRecoverySegments_valid
  have hrecovers := (recovers_of_segments hvalid).2 sampleRecoverySource none (by decide +kernel)
  exact ⟨hvalid, hrecovers.statements, hrecovers.diagnostics⟩

end Monkey
