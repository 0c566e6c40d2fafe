import Monkey.Proofs.Limit
import Monkey.Proofs.Shape

/-!
# What is written in the grammar is parsed

A parser in front of the tokens of a tree of the grammar reads that tree and finds nothing wrong, if
it has as many levels of nesting left as the tree needs; else the first thing it finds wrong is that
the nesting is too deep. This is shown construct by construct and put together along the tree.

What an expression leads to is said of `operation`, which reads an operand and the operators behind
it: in front of a phrase it comes to the point where the phrase is read and the operators behind it
are looked for (`Phrase.Operates`). The left side of a binary operation or of a call is read by the
same call of `operation` as the whole, which is why it costs no level, and the limit that was given
to the whole is the one that is still to be passed on.
-/

namespace Monkey

open ParserM

variable {σ : Type} [TokenSource σ]

/-! ## In front of a tree and behind it -/

/-- A parser behind some tokens: the rest is ahead and the last of the tokens is current, if the
end of input does not stand for it. -/
structure Parser.Behind (parser : Parser σ) (tokens : List Token) (closed : Bool)
    (rest : List Token) : Prop where
  ahead : parser.ahead = rest
  current : closed = true → tokens.getLast? = some parser.current

theorem Parser.Behind.prepend {parser : Parser σ} {tokens rest : List Token} {closed : Bool}
    (h : parser.Behind tokens closed rest) (front : List Token) :
    parser.Behind (front ++ tokens) closed rest := by
  refine ⟨h.ahead, fun hclosed => ?_⟩
  rw [List.getLast?_append, h.current hclosed]
  rfl

/-- Behind a token that was the first of those ahead. -/
theorem Parser.behind_advance {parser : Parser σ} {token : Token} {rest : List Token}
    (h : parser.ahead = token :: rest) (front : List Token) :
    parser.advance.Behind (front ++ [token]) true rest := by
  obtain ⟨hpeek, hrest⟩ := Parser.ahead_eq_cons h
  refine Parser.Behind.prepend ⟨hrest, fun _ => ?_⟩ front
  rw [← hpeek]
  rfl

/-- A parser in front of a phrase. Where the end of input closes the phrase it has to be final. -/
structure Phrase.Starts (phrase : Phrase) (g : Grammar) (p : Parser σ) (rest : List Token) :
    Prop where
  prepared : p.Prepared g
  input : p.input = phrase.tokens ++ rest
  fits : phrase.Fits g (leadKind .endOfInput rest)
  final : phrase.closed = true ∨ p.EndStays

/-- A parser in front of a block. -/
structure Block.Starts (block : Block) (g : Grammar) (p : Parser σ) (rest : List Token) :
    Prop where
  prepared : p.Prepared g
  input : p.input = block.tokens ++ rest
  fits : block.Fits g (leadKind .endOfInput rest)
  final : block.closed = true ∨ p.EndStays

variable {g : Grammar}

/-! ## Operators behind an operand -/

section Operators

variable {p : Parser σ} (limit : Precedence)

theorem run_operators_of_stop (hp : p.Prepared g) (hstop : g.strength p.peek.kind ≤ limit.level)
    (left : Expression) : (unbounded.operators limit left).run p = .ok left p := by
  have hentry := hp.tables.operator p.peek.kind
  rw [unbounded_operators hp.keepsEnd, Routines.operatorsStep, run_bind, run_get]
  simp only
  cases hfound : p.tables.operator? p.peek.kind with
  | none => rfl
  | some entry =>
    obtain ⟨precedence, rule⟩ := entry
    rw [hfound] at hentry
    rw [Grammar.strength, ← hentry] at hstop
    have hnot : ¬(p.peek.kind ≠ .semicolon ∧ limit < precedence) :=
      fun h => Nat.not_lt.2 hstop h.2
    simp only [if_neg hnot]
    rfl

theorem run_operators_of_goes (hp : p.Prepared g) {level : Nat} {rule : OperatorRule}
    (hrule : g.operator? p.peek.kind = some (level, rule)) (hlimit : limit.level < level)
    (left : Expression) :
    ∃ precedence : Precedence, precedence.level = level ∧
      (unbounded.operators limit left).run p =
        (ParserM.advance >>= fun _ => unbounded.operatorBy left precedence rule >>=
          unbounded.operators limit).run p := by
  obtain ⟨precedence, hlevel, hfound⟩ := hp.tables.exists_entry hrule
  have hsemicolon : p.peek.kind ≠ .semicolon := by
    intro hkind
    rw [hkind, Grammar.operator?, g.level?_semicolon] at hrule
    simp at hrule
  have hgoes : p.peek.kind ≠ .semicolon ∧ limit < precedence :=
    ⟨hsemicolon, Precedence.lt_iff.2 (hlevel ▸ hlimit)⟩
  refine ⟨precedence, hlevel, ?_⟩
  rw [unbounded_operators hp.keepsEnd, Routines.operatorsStep, run_bind, run_get]
  simp only [hfound, if_pos hgoes]

end Operators

/-! ## Expressions -/

/-- In front of the phrase, reading an operation comes to the point where the phrase is read and
more operators are looked for. -/
def Phrase.Operates (phrase : Phrase) (σ : Type) [TokenSource σ] (g : Grammar) : Prop :=
  ∀ (limit : Precedence) {p : Parser σ} {rest : List Token}, limit.level < phrase.level g →
    g.strength (leadKind .endOfInput rest) ≤ phrase.reach g → phrase.Starts g p rest →
    ((unbounded.operation limit).run p).Reaches p (phrase.nesting - 1)
      (unbounded.operators limit phrase.tree).run (·.Behind phrase.tokens phrase.closed rest)

/-- In front of a phrase that nothing goes on with, an expression is the phrase. -/
theorem Phrase.Operates.expression {phrase : Phrase} (h : phrase.Operates σ g)
    (limit : Precedence) {p : Parser σ} {rest : List Token} (hlimit : limit.level ≤ 5)
    (hlevel : limit.level < phrase.level g)
    (hstop : g.strength (leadKind .endOfInput rest) ≤ limit.level) (hp : phrase.Starts g p rest) :
    ((unbounded.expression limit).run p).Reaches p phrase.nesting (.ok phrase.tree)
      (·.Behind phrase.tokens phrase.closed rest) := by
  have hreach : g.strength (leadKind .endOfInput rest) ≤ phrase.reach g :=
    Nat.le_trans hstop (Phrase.le_reach hlimit (Nat.le_of_lt hlevel))
  have hcost : phrase.nesting - 1 + 1 = phrase.nesting := Nat.sub_add_cancel phrase.nesting_pos
  rw [unbounded_expression hp.prepared.keepsEnd]
  refine (Outcome.Reaches.nested ?_ fun hdepth => ?_).congr_cost hcost
  · exact fun q hbehind => ⟨hbehind.ahead, hbehind.current⟩
  have hinner : phrase.Starts g { p with depth := p.depth + 1 } rest := by
    have hwindow : { p with depth := p.depth + 1 }.window = (p.skip 0).window := rfl
    exact ⟨⟨⟨hp.prepared.tables, hp.prepared.strict⟩, hdepth⟩, hp.input, hp.fits,
      hp.final.imp id fun hend => hend.of_window hwindow⟩
  refine ((h limit hlevel hreach hinner).trans fun q hq hbehind => ?_).congr_cost (Nat.max_zero _)
  have hq' := hinner.prepared.passes hq
  have hpeek : g.strength q.peek.kind ≤ limit.level := by
    rw [← Parser.leadKind_ahead, hbehind.ahead]
    exact hstop
  rw [run_operators_of_stop limit hq' hpeek]
  exact .self hq'.depth_le hbehind

/-- In front of a phrase that no operator follows, an expression is the phrase. -/
theorem Phrase.Operates.whole {phrase : Phrase} (h : phrase.Operates σ g) {p : Parser σ}
    {rest : List Token} (hends : ¬g.Continues (leadKind .endOfInput rest))
    (hp : phrase.Starts g p rest) :
    ((unbounded.expression .lowest).run p).Reaches p phrase.nesting (.ok phrase.tree)
      (·.Behind phrase.tokens phrase.closed rest) :=
  h.expression .lowest (by decide) hp.fits.level_pos
    (Nat.le_of_eq (Grammar.not_continues_iff.1 hends)) hp

/-- In front of a phrase inside of something that is not over yet. -/
theorem Phrase.starts_of_ahead {phrase : Phrase} {p : Parser σ} {rest : List Token}
    (hp : p.Prepared g) (hahead : p.ahead = phrase.tokens ++ rest)
    (hfits : phrase.Fits g (leadKind .endOfInput rest))
    (hrest : leadKind .endOfInput rest ≠ .endOfInput) : phrase.Starts g p.advance rest :=
  ⟨hp.advance, by rw [Parser.input_advance, hahead], hfits, .inl (hfits.closed hrest)⟩

/-- A phrase that one rule for operands reads. -/
theorem Phrase.operates_of_operand {phrase : Phrase} (rule : OperandRule)
    (hrule : ∀ {next tokens}, phrase.Fits g next →
      Tables.standardOperand? (leadKind .endOfInput (phrase.tokens ++ tokens)) = some rule)
    (h : ∀ {p : Parser σ} {rest}, g.strength (leadKind .endOfInput rest) ≤ phrase.reach g →
      phrase.Starts g p rest → ((unbounded.operandBy rule).run p).Reaches p (phrase.nesting - 1)
        (.ok phrase.tree) (·.Behind phrase.tokens phrase.closed rest)) :
    phrase.Operates σ g := by
  intro limit p rest _ hreach hp
  have hfound : p.tables.operand? p.current.kind = some rule := by
    rw [hp.prepared.tables.operand, ← Parser.leadKind_input, hp.input]
    exact hrule hp.fits
  have hwritten : phrase.Starts g (p.write (.event (.expression p.current.kind limit))) rest :=
    ⟨hp.prepared.write _, hp.input, hp.fits,
      hp.final.imp id fun hend => hend.write _⟩
  refine .get (.announce ?_)
  simp only [hfound]
  exact (h hreach hwritten).next

/-! ## One construct at a time -/

namespace Phrase

theorem operates_identifier (token : Token) : (identifier token).Operates σ g := by
  refine operates_of_operand .identifier ?_ ?_
  · exact fun hfits => congrArg Tables.standardOperand? hfits
  intro p rest _ hp
  obtain ⟨hcurrent, hahead⟩ := Parser.input_eq_cons hp.input
  rw [← hcurrent]
  exact .current (.pure hp.prepared.depth_le ⟨hahead, fun _ => rfl⟩)

theorem operates_integer (token : Token) (value : Int64) :
    (integer token value).Operates σ g := by
  refine operates_of_operand .integer ?_ ?_
  · exact fun hfits => congrArg Tables.standardOperand? hfits.1
  intro p rest _ hp
  obtain ⟨hcurrent, hahead⟩ := Parser.input_eq_cons hp.input
  have hread : Text.readInt64? p.current.text.toList = some value := by
    rw [hcurrent]
    exact Text.readInt64?_of_readDecimal? hp.fits.2
  have hrun : (integerOperand : ParserM σ Expression).run p =
      .ok (.integer value p.current.text) p := by
    change integerOperand p = _
    rw [integerOperand, hread]
  rw [Routines.operandBy, hrun, hcurrent]
  exact .self hp.prepared.depth_le ⟨hahead, fun _ => by rw [hcurrent]; rfl⟩

theorem operates_boolean (token : Token) (value : Bool) : (boolean token value).Operates σ g := by
  refine operates_of_operand .boolean (fun hfits => ?_) ?_
  · cases value <;> exact congrArg Tables.standardOperand? hfits
  intro p rest _ hp
  obtain ⟨hcurrent, hahead⟩ := Parser.input_eq_cons hp.input
  have hvalue : decide (p.current.kind = .trueWord) = value := by
    have hkind : token.kind = if value then .trueWord else .falseWord := hp.fits
    rw [hcurrent, hkind]
    cases value <;> rfl
  rw [← hvalue]
  exact .current (.pure hp.prepared.depth_le ⟨hahead, fun _ => by rw [hcurrent]; rfl⟩)

theorem operates_group {opening closing : Token} {inner : Phrase} (h : inner.Operates σ g) :
    (group opening inner closing).Operates σ g := by
  refine operates_of_operand .grouping ?_ ?_
  · exact fun hfits => congrArg Tables.standardOperand? hfits.1
  intro p rest _ hp
  obtain ⟨hopen, hinner, hends, hclose⟩ := hp.fits
  have hinput : p.input = opening :: (inner.tokens ++ closing :: rest) := by
    rw [hp.input, Phrase.tokens]
    simp
  obtain ⟨-, hahead⟩ := Parser.input_eq_cons hinput
  have hlead : leadKind .endOfInput (closing :: rest) = .closeParen := hclose
  have hstarts : inner.Starts g p.advance (closing :: rest) :=
    starts_of_ahead hp.prepared hahead (hlead ▸ hinner) (by rw [hlead]; decide)
  refine (Outcome.Reaches.advance ?_).congr_cost (Nat.add_sub_cancel_left 1 inner.nesting).symm
  refine (h.whole (hlead ▸ hends) hstarts).andThen fun q hq hbehind => ?_
  have hq' := hstarts.prepared.passes hq
  have hpeek : q.peek.kind = .closeParen := by
    rw [← Parser.leadKind_ahead, hbehind.ahead, hlead]
  exact .expect hpeek (.pure hq'.advance.depth_le
    (Parser.behind_advance hbehind.ahead (opening :: inner.tokens)))

theorem operates_unary {operator : Token} {right : Phrase} (h : right.Operates σ g) :
    (unary operator right).Operates σ g := by
  refine operates_of_operand .unary (fun hfits => ?_) ?_
  · rcases hfits.1 with hkind | hkind <;> exact congrArg Tables.standardOperand? hkind
  intro p rest hreach hp
  obtain ⟨-, hlevel, hright⟩ := hp.fits
  obtain ⟨hcurrent, hahead⟩ := Parser.input_eq_cons hp.input
  have hstarts : right.Starts g p.advance rest :=
    ⟨hp.prepared.advance, by rw [Parser.input_advance, hahead]; rfl, hright,
      hp.final.imp id Parser.EndStays.advance⟩
  rw [← hcurrent]
  refine (Outcome.Reaches.current (.advance ?_)).congr_cost
    (Nat.add_sub_cancel_left 1 right.nesting).symm
  exact (h.expression .unary (by decide) hlevel hreach hstarts).map hstarts.prepared.depth_le
    fun q hbehind => hbehind.prepend [p.current]

/-- The left side is read on the way to the whole, and the right side up to what binds no tighter
than the operator. -/
theorem operates_binary {left right : Phrase} {operator : Token} (hl : left.Operates σ g)
    (hr : right.Operates σ g) : (binary left operator right).Operates σ g := by
  intro limit p rest hlimit hreach hp
  obtain ⟨level, hlevel, hleftReach, hleft, hrightLevel, hright⟩ := hp.fits
  have hself : (binary left operator right).level g = level := by rw [Phrase.level, hlevel]; rfl
  have hselfReach : (binary left operator right).reach g = level := by
    rw [Phrase.reach, hlevel]
    rfl
  have hleftLevel := left.reach_le_level g
  have hend : operator.kind ≠ .endOfInput := by
    intro hkind
    rw [hkind, g.level?_endOfInput] at hlevel
    cases hlevel
  have hleftStarts : left.Starts g p (operator :: (right.tokens ++ rest)) :=
    ⟨hp.prepared, by rw [hp.input, Phrase.tokens]; simp, hleft, .inl (hleft.closed hend)⟩
  have hleftStop : g.strength (leadKind .endOfInput (operator :: (right.tokens ++ rest))) ≤
      left.reach g := by
    rw [leadKind_cons, Grammar.strength_of_level hlevel]
    exact hleftReach
  have hcost : max (left.nesting - 1) right.nesting = (binary left operator right).nesting - 1 := by
    rw [Phrase.nesting]
    omega
  rw [← hcost]
  refine (hl limit (by omega) hleftStop hleftStarts).trans fun q hq hbehind => ?_
  have hq' := hp.prepared.passes hq
  obtain ⟨rfl, hahead⟩ := Parser.ahead_eq_cons hbehind.ahead
  have hrule : g.operator? q.peek.kind = some (level, .binary) :=
    Grammar.operator?_of_level hlevel
  obtain ⟨precedence, hprecedence, hrun⟩ := run_operators_of_goes limit hq' hrule
    (by omega) left.tree
  have hrightStarts : right.Starts g q.advance.advance rest :=
    ⟨hq'.advance.advance, by rw [Parser.input_advance, hahead], hright,
      hp.final.imp id fun hend => (hq.endStays hend).advance.advance⟩
  have hlast : ((unbounded.operatorBy left.tree precedence .binary).run q.advance).Reaches q.advance
      right.nesting (.ok (.binary left.tree q.peek.text right.tree))
      (·.Behind (binary left q.peek right).tokens right.closed rest) := by
    refine .current (.advance ?_)
    have hrightLimit := g.level_le hlevel
    exact (hr.expression precedence (by omega) (by omega) (by omega) hrightStarts).map
      hrightStarts.prepared.depth_le
      fun _ hbehind => (hbehind.prepend [q.peek]).prepend left.tokens
  rw [hrun]
  exact .advance hlast.next

end Phrase

/-! ### Calls -/

/-- Behind the parenthesis that opens them, arguments are read up to the one that closes them. -/
def Arguments.Parses (arguments : Arguments) (σ : Type) [TokenSource σ] (g : Grammar) : Prop :=
  ∀ {p : Parser σ} {closing : Token} {rest : List Token}, p.Prepared g → arguments.Fits g →
    closing.kind = .closeParen → p.ahead = arguments.tokens ++ closing :: rest →
    (unbounded.argumentList.run p).Reaches p arguments.nesting (.ok arguments.trees)
      (·.Behind (arguments.tokens ++ [closing]) true rest)

/-- Further arguments are read up to a parenthesis that closes them. -/
def FurtherArguments.Parses (further : FurtherArguments) (σ : Type) [TokenSource σ]
    (g : Grammar) : Prop :=
  ∀ {p : Parser σ} {rest : List Token}, p.Prepared g → further.Fits g →
    leadKind .endOfInput rest = .closeParen → p.ahead = further.tokens ++ rest →
    (unbounded.arguments.run p).Reaches p further.nesting (.ok further.trees) (·.ahead = rest)

theorem FurtherArguments.Fits.leadKind {further : FurtherArguments} (h : further.Fits g)
    {rest : List Token} (hrest : leadKind .endOfInput rest = .closeParen) :
    leadKind .endOfInput (further.tokens ++ rest) = further.lead := by
  cases further with
  | none => exact hrest
  | some comma argument further => exact h.1

theorem FurtherArguments.lead_ne (further : FurtherArguments) : further.lead ≠ .endOfInput := by
  cases further <;> exact fun h => by cases h

theorem FurtherArguments.parses_none : FurtherArguments.none.Parses σ g := by
  intro p rest hp _ hrest hahead
  have hahead : p.ahead = rest := hahead
  have hpeek : p.peek.kind ≠ .comma := by
    rw [← Parser.leadKind_ahead, hahead, hrest]
    decide
  rw [unbounded_arguments hp.keepsEnd]
  refine .peekIs ?_
  simp only [hpeek, decide_false, Bool.false_eq_true, if_false]
  exact .pure hp.depth_le hahead

theorem FurtherArguments.parses_some {comma : Token} {argument : Phrase}
    {further : FurtherArguments} (ha : argument.Operates σ g) (hf : further.Parses σ g) :
    (some comma argument further).Parses σ g := by
  intro p rest hp hfits hrest hahead
  obtain ⟨hcomma, hargument, hends, hfurther⟩ := hfits
  have hahead : p.ahead = comma :: (argument.tokens ++ (further.tokens ++ rest)) := by
    rw [hahead, FurtherArguments.tokens]
    simp
  obtain ⟨rfl, hafter⟩ := Parser.ahead_eq_cons hahead
  have hlead := hfurther.leadKind hrest
  have hstarts : argument.Starts g p.advance.advance (further.tokens ++ rest) :=
    Phrase.starts_of_ahead hp.advance hafter (hlead ▸ hargument) (hlead ▸ further.lead_ne)
  rw [unbounded_arguments hp.keepsEnd]
  refine .peekIs ?_
  simp only [hcomma, decide_true, if_true]
  refine .advance (.advance ?_)
  refine (ha.whole (hlead ▸ hends) hstarts).bind fun q hq hbehind => ?_
  have hq' := hstarts.prepared.passes hq
  exact (hf hq' hfurther hrest hbehind.ahead).map hq'.depth_le fun _ hahead => hahead

theorem Arguments.parses_none : Arguments.none.Parses σ g := by
  intro p closing rest hp _ hclose hahead
  obtain ⟨rfl, -⟩ := Parser.ahead_eq_cons hahead
  refine .peekIs ?_
  simp only [hclose, decide_true, if_true]
  exact .advance (.pure hp.advance.depth_le (Parser.behind_advance hahead []))

theorem Arguments.parses_some {first : Phrase} {further : FurtherArguments}
    (ha : first.Operates σ g) (hf : further.Parses σ g) :
    (Arguments.some first further).Parses σ g := by
  intro p closing rest hp hfits hclose hahead
  obtain ⟨hfirst, hends, hfurther⟩ := hfits
  have hahead : p.ahead = first.tokens ++ (further.tokens ++ closing :: rest) := by
    rw [hahead, Arguments.tokens, List.append_assoc]
  have hrest : leadKind .endOfInput (closing :: rest) = .closeParen := hclose
  have hlead := hfurther.leadKind hrest
  have hpeek : p.peek.kind ≠ .closeParen := by
    intro hkind
    obtain ⟨rule, hrule⟩ := hfirst.operand .endOfInput (further.tokens ++ closing :: rest)
    rw [← hahead, Parser.leadKind_ahead, hkind] at hrule
    cases hrule
  have hstarts : first.Starts g p.advance (further.tokens ++ closing :: rest) :=
    Phrase.starts_of_ahead hp hahead (hlead ▸ hfirst) (hlead ▸ further.lead_ne)
  refine .peekIs ?_
  simp only [hpeek, decide_false, Bool.false_eq_true, if_false]
  refine .advance ?_
  refine (ha.whole (hlead ▸ hends) hstarts).bind fun q hq hbehind => ?_
  have hq' := hstarts.prepared.passes hq
  refine (hf hq' hfurther hrest hbehind.ahead).andThen fun last hlast hclosing => ?_
  have hlastPeek : last.peek.kind = .closeParen := by
    rw [← Parser.leadKind_ahead, hclosing, hrest]
  exact .expect hlastPeek (.pure (hq'.passes hlast).advance.depth_le
    (Parser.behind_advance hclosing _))

/-- The callee is read on the way to the whole. -/
theorem Phrase.operates_call {callee : Phrase} {opening closing : Token} {arguments : Arguments}
    (hc : callee.Operates σ g) (ha : arguments.Parses σ g) :
    (call callee opening arguments closing).Operates σ g := by
  intro limit p rest hlimit _ hp
  obtain ⟨hcalls, hreach, hcallee, hopen, harguments, hclose⟩ := hp.fits
  have hinput : p.input = callee.tokens ++ opening :: (arguments.tokens ++ closing :: rest) := by
    rw [hp.input, Phrase.tokens]
    simp
  have hrule : g.operator? opening.kind = some (6, .call) := by
    rw [hopen, Grammar.operator?, if_pos ⟨hcalls, rfl⟩]
  have hstarts : callee.Starts g p (opening :: (arguments.tokens ++ closing :: rest)) := by
    refine ⟨hp.prepared, hinput, ?_, .inl (hcallee.closed (by decide))⟩
    rw [leadKind_cons, hopen]
    exact hcallee
  have hcost : max (callee.nesting - 1) arguments.nesting =
      (call callee opening arguments closing).nesting - 1 := by
    rw [Phrase.nesting]
    omega
  have hcalleeLevel := callee.reach_le_level g
  have hlimit : limit.level < 6 := hlimit
  rw [← hcost]
  refine (hc limit (by omega) (Nat.le_trans (g.strength_le _) hreach) hstarts).trans
    fun q hq hbehind => ?_
  have hq' := hp.prepared.passes hq
  obtain ⟨rfl, hahead⟩ := Parser.ahead_eq_cons hbehind.ahead
  obtain ⟨precedence, -, hrun⟩ := run_operators_of_goes limit hq' hrule hlimit callee.tree
  have hlast : ((unbounded.operatorBy callee.tree precedence .call).run q.advance).Reaches q.advance
      arguments.nesting (.ok (.call callee.tree arguments.trees))
      (·.Behind (call callee q.peek arguments closing).tokens true rest) :=
    (ha hq'.advance harguments hclose hahead).map hq'.advance.depth_le
      fun _ hbehind => (hbehind.prepend [q.peek]).prepend callee.tokens
  rw [hrun]
  exact .advance hlast.next

/-! ### Blocks, conditionals and functions -/

/-- In front of a block, it is read. -/
def Block.Parses (block : Block) (σ : Type) [TokenSource σ] (g : Grammar) : Prop :=
  ∀ {p : Parser σ} {rest : List Token}, block.Starts g p rest →
    (unbounded.block.run p).Reaches p block.nesting (.ok block.trees)
      (·.Behind block.tokens block.closed rest)

/-- Behind the first block of a conditional, what follows it is read. -/
def Alternative.Parses (alternative : Alternative) (σ : Type) [TokenSource σ] (g : Grammar) :
    Prop :=
  ∀ {p : Parser σ} {front rest : List Token} {closed : Bool}, p.Prepared g →
    p.Behind front closed (alternative.tokens ++ rest) →
    alternative.Fits g (leadKind .endOfInput rest) →
    (alternative.closed closed = true ∨ p.EndStays) →
    (unbounded.alternative.run p).Reaches p alternative.nesting (.ok alternative.trees)
      (·.Behind (front ++ alternative.tokens) (alternative.closed closed) rest)

theorem Alternative.Fits.leadKind {alternative : Alternative} {rest : List Token}
    (h : alternative.Fits g (leadKind .endOfInput rest)) :
    leadKind .endOfInput (alternative.tokens ++ rest) =
      alternative.lead (leadKind .endOfInput rest) := by
  cases alternative with
  | none => rfl
  | some word block => exact h.1

theorem Alternative.parses_none : Alternative.none.Parses σ g := by
  intro p front rest closed hp hbehind hfits _
  have hahead : p.ahead = rest := hbehind.ahead
  have hpeek : p.peek.kind ≠ .elseWord := by
    rw [← Parser.leadKind_ahead, hahead]
    exact hfits
  refine .peekIs ?_
  simp only [hpeek, decide_false, Bool.false_eq_true, if_false]
  refine .pure hp.depth_le ⟨hahead, ?_⟩
  rw [Alternative.tokens, List.append_nil]
  exact hbehind.current

theorem Alternative.parses_some {word : Token} {block : Block} (hb : block.Parses σ g) :
    (Alternative.some word block).Parses σ g := by
  intro p front rest closed hp hbehind hfits hfinal
  obtain ⟨hword, hblock⟩ := hfits
  obtain ⟨rfl, hahead⟩ := Parser.ahead_eq_cons hbehind.ahead
  have hopen : p.advance.peek.kind = .openCurly := by
    rw [← Parser.leadKind_ahead, hahead]
    exact hblock.opening rest _
  have hstarts : block.Starts g p.advance.advance rest :=
    ⟨hp.advance.advance, by rw [Parser.input_advance, hahead]; rfl, hblock,
      hfinal.imp id fun hend => hend.advance.advance⟩
  refine .peekIs ?_
  simp only [hword, decide_true, if_true]
  exact .advance (.expect hopen ((hb hstarts).map hstarts.prepared.depth_le
    fun _ hbehind => (hbehind.prepend [p.peek]).prepend front))

theorem Phrase.operates_conditional {word opening closing : Token} {condition : Phrase}
    {consequence : Block} {alternative : Alternative} (hc : condition.Operates σ g)
    (hb : consequence.Parses σ g) (ha : alternative.Parses σ g) :
    (conditional word opening condition closing consequence alternative).Operates σ g := by
  refine operates_of_operand .conditional ?_ ?_
  · exact fun hfits => congrArg Tables.standardOperand? hfits.1
  intro p rest _ hp
  obtain ⟨hword, hopen, hcondition, hends, hclose, hconsequence, halternative⟩ := hp.fits
  have hinput : p.input = word :: opening :: (condition.tokens ++
      closing :: (consequence.tokens ++ (alternative.tokens ++ rest))) := by
    rw [hp.input, Phrase.tokens]
    simp
  obtain ⟨-, hahead⟩ := Parser.input_eq_cons hinput
  obtain ⟨rfl, hinner⟩ := Parser.ahead_eq_cons hahead
  have hlead := halternative.leadKind
  have hstarts : condition.Starts g p.advance.advance
      (closing :: (consequence.tokens ++ (alternative.tokens ++ rest))) :=
    starts_of_ahead hp.prepared.advance hinner (by rw [leadKind_cons, hclose]; exact hcondition)
      (by rw [leadKind_cons, hclose]; decide)
  refine Outcome.Reaches.congr_cost (.expect hopen (.advance ?_))
    (Nat.add_sub_cancel_left 1 _).symm
  have hstop : ¬g.Continues (leadKind .endOfInput
      (closing :: (consequence.tokens ++ (alternative.tokens ++ rest)))) := by
    rw [leadKind_cons, hclose]
    exact hends
  refine (hc.whole hstop hstarts).bind fun q₁ hq₁ hbehind₁ => ?_
  have hp₁ := hstarts.prepared.passes hq₁
  obtain ⟨rfl, hblock⟩ := Parser.ahead_eq_cons hbehind₁.ahead
  have hcurly : q₁.advance.peek.kind = .openCurly := by
    rw [← Parser.leadKind_ahead, hblock]
    exact hconsequence.opening _ _
  have hend₁ : p.EndStays → q₁.advance.advance.EndStays := fun hend =>
    (hq₁.endStays hend.advance.advance).advance.advance
  have hstarts₁ : consequence.Starts g q₁.advance.advance (alternative.tokens ++ rest) := by
    refine ⟨hp₁.advance.advance, by rw [Parser.input_advance, hblock], hlead ▸ hconsequence, ?_⟩
    cases alternative with
    | none => exact hp.final.imp id hend₁
    | some word block => exact .inl (hconsequence.closed (by rintro ⟨⟩))
  refine .expect hclose (.expect hcurly ?_)
  refine (hb hstarts₁).bind fun q₂ hq₂ hbehind₂ => ?_
  have hp₂ := hstarts₁.prepared.passes hq₂
  refine (ha hp₂ (hbehind₂.prepend (word :: p.peek :: (condition.tokens ++ [q₁.peek])))
    halternative (hp.final.imp id fun hend => hq₂.endStays (hend₁ hend))).map
    hp₂.depth_le fun q₃ hbehind₃ => ?_
  simpa [Phrase.tokens, Phrase.closed] using hbehind₃

/-- Further parameters are read up to a parenthesis that closes them. -/
theorem reaches_parameters {further : List (Token × Token)} {p : Parser σ} {rest : List Token}
    (hp : p.Prepared g)
    (hkinds : ∀ pair ∈ further, pair.1.kind = .comma ∧ pair.2.kind = .identifier)
    (hrest : leadKind .endOfInput rest = .closeParen)
    (hahead : p.ahead = (further.flatMap fun (comma, name) => [comma, name]) ++ rest) :
    (unbounded.parameters.run p).Reaches p 0 (.ok (further.map fun (_, name) => name.text))
      (·.ahead = rest) := by
  induction further generalizing p with
  | nil =>
    have hahead : p.ahead = rest := hahead
    have hpeek : p.peek.kind ≠ .comma := by
      rw [← Parser.leadKind_ahead, hahead, hrest]
      decide
    rw [unbounded_parameters hp.keepsEnd]
    refine .peekIs ?_
    simp only [hpeek, decide_false, Bool.false_eq_true, if_false]
    exact .pure hp.depth_le hahead
  | cons pair further ih =>
    obtain ⟨comma, name⟩ := pair
    have hkind : comma.kind = .comma ∧ name.kind = .identifier := hkinds _ List.mem_cons_self
    obtain ⟨hcomma, hname⟩ := hkind
    obtain ⟨rfl, hafter⟩ := Parser.ahead_eq_cons hahead
    obtain ⟨rfl, hmore⟩ := Parser.ahead_eq_cons hafter
    rw [unbounded_parameters hp.keepsEnd]
    refine .peekIs ?_
    simp only [hcomma, decide_true, if_true]
    refine .advance (.expect hname (.current ?_))
    exact (ih hp.advance.advance (fun pair hmem => hkinds pair (List.mem_cons_of_mem _ hmem))
      hmore).map hp.advance.advance.depth_le fun _ hahead => hahead

/-- Behind the parenthesis that opens them, parameters are read up to the one that closes them. -/
theorem reaches_parameterList {parameters : Parameters} {p : Parser σ} {closing : Token}
    {rest : List Token} (hp : p.Prepared g) (hfits : parameters.Fits)
    (hclose : closing.kind = .closeParen)
    (hahead : p.ahead = parameters.tokens ++ closing :: rest) :
    (unbounded.parameterList.run p).Reaches p 0 (.ok parameters.names) (·.ahead = rest) := by
  cases parameters with
  | none =>
    obtain ⟨rfl, hrest⟩ := Parser.ahead_eq_cons hahead
    refine .peekIs ?_
    simp only [hclose, decide_true, if_true]
    exact .advance (.pure hp.advance.depth_le hrest)
  | some first further =>
    obtain ⟨hfirst, hkinds⟩ := hfits
    obtain ⟨rfl, hafter⟩ := Parser.ahead_eq_cons hahead
    have hpeek : p.peek.kind ≠ .closeParen := by
      rw [hfirst]
      decide
    refine .peekIs ?_
    simp only [hpeek, decide_false, Bool.false_eq_true, if_false]
    have hlead : leadKind .endOfInput (closing :: rest) = .closeParen := hclose
    refine .expect hfirst (.current ?_)
    refine (reaches_parameters hp.advance hkinds hlead hafter).andThen fun q hq hlast => ?_
    obtain ⟨rfl, hrest⟩ := Parser.ahead_eq_cons hlast
    exact .expect hclose (.pure (hp.advance.passes hq).advance.depth_le hrest)

theorem Phrase.operates_function {word opening closing : Token} {parameters : Parameters}
    {body : Block} (hb : body.Parses σ g) :
    (function word opening parameters closing body).Operates σ g := by
  refine operates_of_operand .function ?_ ?_
  · exact fun hfits => congrArg Tables.standardOperand? hfits.1
  intro p rest _ hp
  obtain ⟨hword, hopen, hparameters, hclose, hbody⟩ := hp.fits
  have hinput : p.input =
      word :: opening :: (parameters.tokens ++ closing :: (body.tokens ++ rest)) := by
    rw [hp.input, Phrase.tokens]
    simp
  obtain ⟨-, hahead⟩ := Parser.input_eq_cons hinput
  obtain ⟨rfl, hinner⟩ := Parser.ahead_eq_cons hahead
  have hcost : max 0 body.nesting = (function word p.peek parameters closing body).nesting - 1 := by
    rw [Phrase.nesting]
    omega
  rw [← hcost]
  refine .expect hopen ?_
  have hlist := reaches_parameterList hp.prepared.advance hparameters hclose hinner
  refine hlist.bind fun q hq hblock => ?_
  have hq' := hp.prepared.advance.passes hq
  have hcurly : q.peek.kind = .openCurly := by
    rw [← Parser.leadKind_ahead, hblock]
    exact hbody.opening _ _
  have hstarts : body.Starts g q.advance rest :=
    ⟨hq'.advance, by rw [Parser.input_advance, hblock], hbody,
      hp.final.imp id fun hend => (hq.endStays hend.advance).advance⟩
  refine .expect hcurly ((hb hstarts).map hstarts.prepared.depth_le fun last hbehind => ?_)
  simpa [Phrase.tokens, Phrase.closed] using
    hbehind.prepend (word :: p.peek :: (parameters.tokens ++ [closing]))

/-! ## Statements -/

/-- In front of a statement that has its end, it is read. -/
def Clause.Parses (clause : Clause) (σ : Type) [TokenSource σ] (g : Grammar) : Prop :=
  ∀ {p : Parser σ} {rest : List Token}, p.Prepared g → p.input = clause.tokens ++ rest →
    clause.Fits g (leadKind .endOfInput rest) →
    (clause.semicolon = none → leadKind .endOfInput rest ≠ .semicolon) →
    (leadKind .endOfInput rest = .endOfInput → p.EndStays) →
    (unbounded.statement.run p).Reaches p clause.nesting (.ok clause.tree) (·.ahead = rest)

/-- In front of statements in a row, they are read up to the end of the region they fill. -/
def ClausesParse (clauses : List Clause) (σ : Type) [TokenSource σ] (g : Grammar) : Prop :=
  ∀ (region : Region) {p : Parser σ} {rest : List Token}, p.Prepared g →
    p.input = clausesTokens clauses ++ rest → region.endsAt (leadKind .endOfInput rest) = true →
    ClausesFit g (leadKind .endOfInput rest) clauses →
    (leadKind .endOfInput rest = .endOfInput → p.EndStays) →
    ((unbounded.statements region).run p).Reaches p (clausesNesting clauses)
      (.ok (clausesTrees clauses)) (·.input = rest)

theorem reaches_finishStatement {p : Parser σ} {semicolon : Option Token} {rest : List Token}
    (hp : p.Prepared g) (hahead : p.ahead = semicolon.toList ++ rest)
    (hends : g.EndsStatement (leadKind .endOfInput rest) semicolon)
    (hnext : semicolon = none → leadKind .endOfInput rest ≠ .semicolon) (value : Expression) :
    ((finishStatement (some value)).run p).Reaches p 0 (.ok value) (·.ahead = rest) := by
  cases semicolon with
  | some token =>
    obtain ⟨rfl, hrest⟩ := Parser.ahead_eq_cons hahead
    have hkind : p.peek.kind = .semicolon := hends
    refine .peekIs ?_
    simp only [hkind, decide_true, if_true]
    exact .advance (.pure hp.advance.depth_le hrest)
  | none =>
    have hahead : p.ahead = rest := hahead
    have hnext := hnext rfl
    rw [← hahead, Parser.leadKind_ahead] at hends hnext
    have hmay : p.options.mayEndBefore p.peek.kind = true := by
      rw [Options.mayEndBefore, hp.strict]
      cases hstrict : g.strict with
      | false => rfl
      | true => rcases hends.2 hstrict with hkind | hkind <;> simp [hkind]
    refine .peekIs ?_
    simp only [hnext, decide_false, Bool.false_eq_true, if_false]
    change ((if p.options.mayEndBefore p.peek.kind then (Pure.pure value : ParserM σ _)
      else expect .semicolon >>= fun _ => Pure.pure value).run p).Reaches p 0 _ _
    rw [if_pos hmay]
    exact .pure hp.depth_le hahead

/-- In front of the value of a statement, it is read with the end of the statement. -/
theorem Phrase.Operates.statementValue {phrase : Phrase} (h : phrase.Operates σ g) {p : Parser σ}
    {semicolon : Option Token} {rest : List Token} (hp : p.Prepared g)
    (hinput : p.input = phrase.tokens ++ (semicolon.toList ++ rest))
    (hfits : phrase.Fits g (leadKind (leadKind .endOfInput rest) semicolon.toList))
    (hends : g.EndsStatement (leadKind .endOfInput rest) semicolon)
    (hnext : semicolon = none → leadKind .endOfInput rest ≠ .semicolon)
    (hfinal : leadKind .endOfInput rest = .endOfInput → p.EndStays) :
    (unbounded.statementValue.run p).Reaches p phrase.nesting (.ok phrase.tree)
      (·.ahead = rest) := by
  rw [← leadKind_append] at hfits
  have hstop : ¬g.Continues (leadKind .endOfInput (semicolon.toList ++ rest)) := by
    cases semicolon with
    | none => exact hends.1
    | some token =>
      have hkind : token.kind = .semicolon := hends
      rw [Option.toList_some, List.singleton_append, leadKind_cons, hkind]
      exact Grammar.not_continues_iff.2 g.strength_semicolon
  have hclosed : phrase.closed = true ∨ p.EndStays := by
    by_cases hend : leadKind .endOfInput (semicolon.toList ++ rest) = .endOfInput
    · cases semicolon with
      | none => exact .inr (hfinal hend)
      | some token => exact absurd (hends.symm.trans hend) (by decide)
    · exact .inl (hfits.closed hend)
  have hstarts : phrase.Starts g p (semicolon.toList ++ rest) := ⟨hp, hinput, hfits, hclosed⟩
  refine (h.whole hstop hstarts).attempt.andThen fun q hq hbehind => ?_
  exact reaches_finishStatement (hp.passes hq) hbehind.ahead hends hnext _

theorem Clause.parses_letBinding {word name assign : Token} {value : Phrase}
    {semicolon : Option Token} (h : value.Operates σ g) :
    (letBinding word name assign value semicolon).Parses σ g := by
  intro p rest hp hinput hfits hnext hfinal
  obtain ⟨hword, hname, hassign, hvalue, hends⟩ := hfits
  have hinput : p.input =
      word :: name :: assign :: (value.tokens ++ (semicolon.toList ++ rest)) := by
    rw [hinput, Clause.tokens]
    simp
  obtain ⟨rfl, hahead⟩ := Parser.input_eq_cons hinput
  obtain ⟨rfl, hahead₁⟩ := Parser.ahead_eq_cons hahead
  obtain ⟨rfl, hahead₂⟩ := Parser.ahead_eq_cons hahead₁
  have hfound : p.tables.statement? p.current.kind = some .letBinding := by
    rw [hp.tables.statement, hword]
    rfl
  rw [unbounded_statement hp.keepsEnd]
  refine .get (.announce ?_)
  simp only [hfound]
  let q := (p.write (.event (.statement p.current.kind))).advance.advance.advance
  have hpass : p.Passes q :=
    (((Parser.Passes.write p _).trans (.advance _)).trans (.advance _)).trans (.advance _)
  have hqinput : q.input = value.tokens ++ (semicolon.toList ++ rest) :=
    Eq.trans (Parser.input_advance _) hahead₂
  refine .expect hname (.current (.expect hassign (.advance ?_)))
  exact (h.statementValue (hp.passes hpass) hqinput hvalue hends hnext
    fun hend => hpass.endStays (hfinal hend)).map (hp.passes hpass).depth_le fun _ hahead => hahead

theorem Clause.parses_returning {word : Token} {value : Phrase} {semicolon : Option Token}
    (h : value.Operates σ g) : (returning word value semicolon).Parses σ g := by
  intro p rest hp hinput hfits hnext hfinal
  obtain ⟨hword, hvalue, hends⟩ := hfits
  have hinput : p.input = word :: (value.tokens ++ (semicolon.toList ++ rest)) := by
    rw [hinput, Clause.tokens]
    simp
  obtain ⟨rfl, hahead⟩ := Parser.input_eq_cons hinput
  have hfound : p.tables.statement? p.current.kind = some .returning := by
    rw [hp.tables.statement, hword]
    rfl
  rw [unbounded_statement hp.keepsEnd]
  refine .get (.announce ?_)
  simp only [hfound]
  let q := (p.write (.event (.statement p.current.kind))).advance
  have hpass : p.Passes q := (Parser.Passes.write p _).trans (.advance _)
  have hqinput : q.input = value.tokens ++ (semicolon.toList ++ rest) :=
    Eq.trans (Parser.input_advance _) hahead
  refine .advance ?_
  exact (h.statementValue (hp.passes hpass) hqinput hvalue hends hnext
    fun hend => hpass.endStays (hfinal hend)).map (hp.passes hpass).depth_le fun _ hahead => hahead

/-- What starts an operand starts no other statement, and ends none. -/
theorem Tables.of_standardOperand? {kind : TokenKind} {rule : OperandRule}
    (h : standardOperand? kind = some rule) :
    standardStatement? kind = none ∧ (∀ region : Region, region.endsAt kind = false) ∧
      kind ≠ .semicolon := by
  cases kind <;>
    first
    | cases h; done
    | exact ⟨rfl, fun region => by cases region <;> rfl, by decide⟩

theorem Clause.parses_expression {value : Phrase} {semicolon : Option Token}
    (h : value.Operates σ g) : (expression value semicolon).Parses σ g := by
  intro p rest hp hinput hfits hnext hfinal
  obtain ⟨hvalue, hends⟩ := hfits
  have hinput : p.input = value.tokens ++ (semicolon.toList ++ rest) := by
    rw [hinput, Clause.tokens, List.append_assoc]
  have hfound : p.tables.statement? p.current.kind = none := by
    obtain ⟨rule, hrule⟩ := hvalue.operand .endOfInput (semicolon.toList ++ rest)
    rw [← hinput, Parser.leadKind_input] at hrule
    rw [hp.tables.statement]
    exact (Tables.of_standardOperand? hrule).1
  rw [unbounded_statement hp.keepsEnd]
  refine .get (.announce ?_)
  simp only [hfound]
  have hpass := Parser.Passes.write p (.event (.statement p.current.kind))
  exact (h.statementValue (hp.passes hpass) hinput hvalue hends hnext
    fun hend => hpass.endStays (hfinal hend)).map (hp.passes hpass).depth_le fun _ hahead => hahead

/-- A statement starts with a token that ends no region and is no semicolon. -/
theorem Clause.Fits.lead {clause : Clause} {next : TokenKind} (h : clause.Fits g next)
    (tokens : List Token) :
    (∀ region : Region, region.endsAt (leadKind .endOfInput (clause.tokens ++ tokens)) = false) ∧
      leadKind .endOfInput (clause.tokens ++ tokens) ≠ .semicolon := by
  cases clause with
  | letBinding word name assign value semicolon =>
    rw [Clause.tokens, List.cons_append, leadKind_cons, h.1]
    exact ⟨fun region => by cases region <;> rfl, by decide⟩
  | returning word value semicolon =>
    rw [Clause.tokens, List.cons_append, leadKind_cons, h.1]
    exact ⟨fun region => by cases region <;> rfl, by decide⟩
  | expression value semicolon =>
    rw [Clause.tokens, List.append_assoc]
    obtain ⟨rule, hrule⟩ := h.1.operand .endOfInput (semicolon.toList ++ tokens)
    exact (Tables.of_standardOperand? hrule).2

theorem clausesParse_nil : ClausesParse [] σ g := by
  intro region p rest hp hinput hends _ _
  have hinput : p.input = rest := hinput
  rw [← hinput, Parser.leadKind_input] at hends
  rw [unbounded_statements hp.keepsEnd]
  refine .current ?_
  simp only [hends, if_true]
  exact .pure hp.depth_le hinput

/-- In front of a statement that starts a stretch, it is read before the others. -/
theorem Clause.Parses.statements {clause : Clause} (h : clause.Parses σ g) (region : Region)
    {p : Parser σ} {rest : List Token} (hp : p.Prepared g)
    (hinput : p.input = clause.tokens ++ rest)
    (hfits : clause.Fits g (leadKind .endOfInput rest))
    (hnext : clause.semicolon = none → leadKind .endOfInput rest ≠ .semicolon)
    (hfinal : leadKind .endOfInput rest = .endOfInput → p.EndStays) :
    ((unbounded.statements region).run p).Reaches p clause.nesting
      (unbounded.statements region >>= fun more => Pure.pure (clause.tree :: more)).run
      (·.input = rest) := by
  have hgoes : region.endsAt p.current.kind = false := by
    rw [← Parser.leadKind_input, hinput]
    exact (hfits.lead _).1 region
  rw [unbounded_statements hp.keepsEnd]
  refine .current ?_
  simp only [hgoes, Bool.false_eq_true, if_false]
  refine (h hp hinput hfits hnext hfinal).attempt.andThen fun q hq hahead => ?_
  exact .advance (.self (hp.passes hq).advance.depth_le (by rw [Parser.input_advance, hahead]))

theorem clausesParse_cons {clause : Clause} {clauses : List Clause} (hc : clause.Parses σ g)
    (hcs : ClausesParse clauses σ g) : ClausesParse (clause :: clauses) σ g := by
  intro region p rest hp hinput hends hfit hfinal
  obtain ⟨hclause, hclauses⟩ := hfit
  have hinput : p.input = clause.tokens ++ (clausesTokens clauses ++ rest) := by
    rw [hinput, clausesTokens, List.append_assoc]
  -- what follows the statement is the next one, or the end of the region
  have hnext : leadKind .endOfInput (clausesTokens clauses ++ rest) ≠ .semicolon := by
    cases clauses with
    | nil => exact fun hkind => by rw [show leadKind _ rest = _ from hkind] at hends; cases hends
    | cons second clauses =>
      rw [clausesTokens, List.append_assoc]
      exact (hclauses.1.lead _).2
  have hlast : leadKind .endOfInput (clausesTokens clauses ++ rest) = .endOfInput →
      p.EndStays := by
    intro hkind
    cases clauses with
    | nil => exact hfinal hkind
    | cons second clauses =>
      rw [clausesTokens, List.append_assoc] at hkind
      have hnot := (hclauses.1.lead (clausesTokens clauses ++ rest)).1 .program
      rw [hkind] at hnot
      cases hnot
  rw [← leadKind_append] at hclause
  refine (hc.statements region hp hinput hclause (fun _ => hnext) hlast).trans
    fun q hq hrest => ?_
  exact (hcs region (hp.passes hq) hrest hends hclauses fun hend =>
    hq.endStays (hfinal hend)).map (hp.passes hq).depth_le fun _ hinput => hinput

theorem Block.parses_closed {opening closing : Token} {body : List Clause}
    (h : ClausesParse body σ g) : (Block.mk opening body (some closing)).Parses σ g := by
  intro p rest hp
  obtain ⟨-, hbody, hclose⟩ := hp.fits
  have hinput : p.input = opening :: (clausesTokens body ++ closing :: rest) := by
    rw [hp.input, Block.tokens]
    simp
  obtain ⟨-, hahead⟩ := Parser.input_eq_cons hinput
  have hlead : leadKind .endOfInput (closing :: rest) = .closeCurly := hclose
  have hprepared := (hp.prepared.write (.event .block)).advance
  refine .announce (.advance ?_)
  refine ((h .block hprepared (Eq.trans (Parser.input_advance _) hahead) (by rw [hlead]; rfl)
    (hlead ▸ hbody) fun hend => ?_).trans fun q hq hlast => ?_).congr_cost (Nat.max_zero _)
  · exact absurd (hlead.symm.trans hend) (by decide)
  · obtain ⟨rfl, hrest⟩ := Parser.input_eq_cons hlast
    refine .self (hprepared.passes hq).depth_le ⟨hrest, fun _ => ?_⟩
    rw [Block.tokens, ← List.cons_append, List.getLast?_append]
    rfl

theorem Block.parses_open {opening : Token} {body : List Clause} (h : ClausesParse body σ g) :
    (Block.mk opening body none).Parses σ g := by
  intro p rest hp
  obtain ⟨-, hbody, hlead⟩ := hp.fits
  have hinput : p.input = opening :: (clausesTokens body ++ rest) := by
    rw [hp.input, Block.tokens]
    simp
  obtain ⟨-, hahead⟩ := Parser.input_eq_cons hinput
  have hstays : p.EndStays := hp.final.resolve_left (by rintro ⟨⟩)
  have hprepared := (hp.prepared.write (.event .block)).advance
  have hpass := (Parser.Passes.write p (.event .block)).trans (.advance _)
  refine .announce (.advance ?_)
  have hread := h .block hprepared (Eq.trans (Parser.input_advance _) hahead)
    (by rw [hlead]; rfl) (by rw [hlead]; exact hbody) fun _ => hpass.endStays hstays
  refine (hread.trans fun q hq hlast => ?_).congr_cost (Nat.max_zero _)
  -- the end of input is current, and nothing but it stands behind it
  have hend : q.current.kind = .endOfInput := by
    rw [← Parser.leadKind_input, hlast, hlead]
  have hrest : rest = [] := by
    rw [← hlast]
    exact if_pos hend
  have hqstays : q.EndStays := (hpass.trans hq).endStays hstays
  refine .self (hprepared.passes hq).depth_le ⟨?_, by rintro ⟨⟩⟩
  rw [hqstays.ahead_eq_nil hend, hrest]

/-! ## All trees -/

mutual

/-- Every phrase is read. -/
theorem Phrase.operates (g : Grammar) : (phrase : Phrase) → phrase.Operates σ g
  | .identifier token => Phrase.operates_identifier token
  | .integer token value => Phrase.operates_integer token value
  | .boolean token value => Phrase.operates_boolean token value
  | .group _ inner _ => Phrase.operates_group (inner.operates g)
  | .unary _ right => Phrase.operates_unary (right.operates g)
  | .binary left _ right => Phrase.operates_binary (left.operates g) (right.operates g)
  | .conditional _ _ condition _ consequence alternative =>
    Phrase.operates_conditional (condition.operates g) (consequence.parses g) (alternative.parses g)
  | .function _ _ _ _ body => Phrase.operates_function (body.parses g)
  | .call callee _ arguments _ => Phrase.operates_call (callee.operates g) (arguments.parses g)

theorem Arguments.parses (g : Grammar) : (arguments : Arguments) → arguments.Parses σ g
  | .none => Arguments.parses_none
  | .some first further => Arguments.parses_some (first.operates g) (further.parses g)

theorem FurtherArguments.parses (g : Grammar) :
    (further : FurtherArguments) → further.Parses σ g
  | .none => FurtherArguments.parses_none
  | .some _ argument further =>
    FurtherArguments.parses_some (argument.operates g) (further.parses g)

theorem Block.parses (g : Grammar) : (block : Block) → block.Parses σ g
  | .mk _ body (some _) => Block.parses_closed (clausesParse g body)
  | .mk _ body none => Block.parses_open (clausesParse g body)

theorem Alternative.parses (g : Grammar) : (alternative : Alternative) → alternative.Parses σ g
  | .none => Alternative.parses_none
  | .some _ block => Alternative.parses_some (block.parses g)

theorem Clause.parses (g : Grammar) : (clause : Clause) → clause.Parses σ g
  | .letBinding _ _ _ value _ => Clause.parses_letBinding (value.operates g)
  | .returning _ value _ => Clause.parses_returning (value.operates g)
  | .expression value _ => Clause.parses_expression (value.operates g)

/-- Statements in a row are all read. -/
theorem clausesParse (g : Grammar) : (clauses : List Clause) → ClausesParse clauses σ g
  | [] => clausesParse_nil
  | clause :: clauses => clausesParse_cons (clause.parses g) (clausesParse g clauses)

end

/-! ## Programs -/

theorem clausesNesting_le_iff {clauses : List Clause} {limit : Nat} :
    clausesNesting clauses ≤ limit ↔ ∀ clause ∈ clauses, clause.nesting ≤ limit := by
  induction clauses with
  | nil => simp [clausesNesting]
  | cons clause clauses ih => simp only [clausesNesting, Nat.max_le, List.forall_mem_cons, ih]

/-- One statement is written as one clause. -/
theorem eq_singleton_of_clausesTrees {clauses : List Clause} {value : Statement}
    (h : clausesTrees clauses = [value]) : ∃ clause, clauses = [clause] ∧ clause.tree = value := by
  cases clauses with
  | nil => cases h
  | cons clause clauses =>
    obtain ⟨hclause, hclauses⟩ := List.cons.inj h
    cases clauses with
    | nil => exact ⟨clause, rfl, hclause⟩
    | cons _ _ => cases hclauses

/-- What comes of parsing some statements: the statements, if none of their values is nested too
deeply, and else a report of that before any other. -/
structure Parse.Answers (result : Parse) (clauses : List Clause) : Prop where
  within : (∀ clause ∈ clauses, clause.nesting ≤ 256) →
    result.program = ⟨clausesTrees clauses⟩ ∧ result.diagnostics = []
  beyond : (∃ clause ∈ clauses, 256 < clause.nesting) →
    ∃ position more, result.diagnostics = ⟨.nestingTooDeep 256, position⟩ :: more

/-- Statements that are read within some steps are read alike without a bound. -/
theorem run_unbounded_statements {fuel : Nat} {region : Region} {parser after : Parser σ}
    {statements : List Statement}
    (h : ((routines fuel).statements region).run parser = .ok statements after) :
    (unbounded.statements region).run parser = .ok statements after := by
  have hne : ((routines fuel).statements region).run parser ≠ .stuck := fun hstuck => by
    rw [h] at hstuck
    cases hstuck
  rw [← h]
  exact (((routines_refines_unbounded fuel).statements region parser).eq_of_ne_stuck hne).symm

/-- A supply of the tokens of a program of the language is parsed into it, up to the limit. -/
theorem parse_answers {supply : σ} {options : Options} {clauses : List Clause}
    (hend : (Parser.ofSupply supply options).EndStays)
    (hcontent : TokenSource.content supply = clausesTokens clauses)
    (hfit : ClausesFit (.standard options) .endOfInput clauses) :
    (parse supply options).Answers clauses := by
  obtain ⟨statements, after, hrun, hprogram, hdiagnostics⟩ :=
    parse_eq_of_statements supply options
  let parser := Parser.ofSupply supply options
  let started := (parser.write .openedProgram).write .entered
  have hpass : parser.Passes started := (Parser.Passes.write parser _).trans (.write _ _)
  have hready : started.Prepared (.standard options) :=
    ⟨(obeys_ofSupply supply options).follows hpass.toFollows, Nat.zero_le _⟩
  have hinput : started.input = clausesTokens clauses ++ [] := by
    rw [List.append_nil, ← hcontent]
    exact Parser.input_ofSupply supply options
  have hreaches := clausesParse (.standard options) clauses .program hready hinput rfl hfit
    fun _ => hpass.endStays hend
  rw [run_unbounded_statements hrun] at hreaches
  have hdepth : started.depth = 0 := rfl
  constructor
  · intro hwithin
    have hnesting := clausesNesting_le_iff.2 hwithin
    obtain ⟨last, hlast, -, hok⟩ :=
      hreaches.within (by rw [hdepth, Nat.zero_add]; exact hnesting)
    cases hok
    refine ⟨hprogram, ?_⟩
    rw [hdiagnostics, hlast.clean]
    rfl
  · rintro ⟨clause, hmem, hdeep⟩
    have hnesting : ¬clausesNesting clauses ≤ maxNesting := fun hle =>
      Nat.not_le.2 hdeep (clausesNesting_le_iff.1 hle clause hmem)
    obtain ⟨position, more, hafter⟩ :=
      hreaches.beyond (by rw [hdepth, Nat.zero_add]; exact hnesting) after rfl
    exact ⟨position, more, by rw [hdiagnostics, hafter]; rfl⟩

/--
The tokens of a program of the language, or a source with these tokens, are parsed into the program
without anything found wrong if the value of each statement is nested at most 256 levels deep. If
one is nested more deeply, that is the first thing reported.
-/
theorem answers_of_clausesFit {options : Options} {clauses : List Clause}
    (hfit : ClausesFit (.standard options) .endOfInput clauses) :
    (parseTokens (clausesTokens clauses) options).Answers clauses ∧
    (∀ source file, (tokenize source file).filter (·.kind ≠ .endOfInput) = clausesTokens clauses →
      (parseSource source file options).Answers clauses) := by
  have hinner := hfit.noEnd.noInnerEnd
  constructor
  · refine parse_answers (endStays_tokenStream options hinner) ?_ hfit
    rw [TokenStream.ofList, content_tokenStream hinner, hfit.noEnd.filter]
  · intro source file htokens
    exact parse_answers (endStays_scanner source file options) htokens hfit

/-- A conditional with a call inside, and a binding of a function whose block is left open. -/
def sampleClauses : List Clause :=
  [.expression (.conditional (.synthetic .ifWord "if") (.synthetic .openParen "(")
      (.binary (.identifier (.synthetic .identifier "a")) (.synthetic .less "<")
        (.unary (.synthetic .dash "-") (.integer (.synthetic .integer "1") 1)))
      (.synthetic .closeParen ")")
      (.mk (.synthetic .openCurly "\x7b")
        [.expression (.call (.identifier (.synthetic .identifier "f")) (.synthetic .openParen "(")
          (.some (.identifier (.synthetic .identifier "b")) .none)
          (.synthetic .closeParen ")")) none]
        (some (.synthetic .closeCurly "\x7d"))) .none) (some (.synthetic .semicolon ";")),
    .letBinding (.synthetic .letWord "let") (.synthetic .identifier "g") (.synthetic .assign "=")
      (.function (.synthetic .fnWord "fn") (.synthetic .openParen "(") .none
        (.synthetic .closeParen ")") (.mk (.synthetic .openCurly "\x7b")
          [.returning (.synthetic .returnWord "return") (.unary (.synthetic .bang "!")
            (.boolean (.synthetic .trueWord "true") true)) none] none))
      none]

theorem sampleClauses_fit : ClausesFit (.standard ⟨true, true⟩) .endOfInput sampleClauses := by
  simp [sampleClauses, ClausesFit, Clause.Fits, Phrase.Fits, Block.Fits, Alternative.Fits,
    Arguments.Fits, FurtherArguments.Fits, FurtherArguments.lead, Parameters.Fits,
    Token.synthetic, Grammar.standard, Grammar.standardLevel?, Grammar.Continues,
    Grammar.EndsStatement, leadKind, clausesTokens, Clause.tokens, Phrase.level, Phrase.reach]
  decide +kernel

theorem answers_sampleClauses :
    ClausesFit (.standard ⟨true, true⟩) .endOfInput sampleClauses ∧
    (∀ clause ∈ sampleClauses, clause.nesting ≤ 256) ∧
    (parseTokens (clausesTokens sampleClauses) ⟨true, true⟩).program =
      ⟨clausesTrees sampleClauses⟩ ∧
    (parseTokens (clausesTokens sampleClauses) ⟨true, true⟩).diagnostics = [] := by
  have hanswers := (answers_of_clausesFit sampleClauses_fit).1
  have hwithin : ∀ clause ∈ sampleClauses, clause.nesting ≤ 256 := by decide
  exact ⟨sampleClauses_fit, hwithin, hanswers.within hwithin⟩

end Monkey
