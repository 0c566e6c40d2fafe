import Monkey.Parser.Congruence

/-!
# What a parser keeps while it reads

Whatever is read and however it ends, the parser keeps its tables, its options and its count of
nesting, moves its window only by taking tokens, and adds to what it found wrong without taking
anything back (`Parser.Follows`). What comes out without a value has added at least one diagnostic
(`Outcome.Framed`). It is a congruence (`framing`), so it holds for every routine with any number of
steps (`routines_framed`), and a reading that adds no diagnostic had none of its parts fail. Where
an action is taken apart, that its parts leave a parser as it may be left behind is found by
instances (`ParserM.Steady`).
-/

namespace Monkey

open ParserM

variable {σ α β : Type} [TokenSource σ]

/-! ## The window -/

namespace Parser

/-- The part of a parser that its supply determines: the two tokens in view, and the supply. -/
def window (parser : Parser σ) : Token × Token × σ :=
  (parser.current, parser.peek, parser.supply)

/-- Moves on by a number of tokens. -/
def skip : Nat → Parser σ → Parser σ
  | 0, parser => parser
  | count + 1, parser => skip count parser.advance

/-- Once the end of input has come, nothing else comes. -/
def EndStays (parser : Parser σ) : Prop :=
  ∀ count, (parser.skip count).current.kind = .endOfInput →
    (parser.skip count).peek.kind = .endOfInput

theorem window_advance {p q : Parser σ} (h : p.window = q.window) :
    p.advance.window = q.advance.window := by
  simp only [window, Prod.mk.injEq] at h
  obtain ⟨-, hpeek, hsupply⟩ := h
  simp only [window, advance, hpeek, hsupply]

theorem window_skip {p q : Parser σ} (h : p.window = q.window) (count : Nat) :
    (p.skip count).window = (q.skip count).window := by
  induction count generalizing p q with
  | zero => exact h
  | succ count ih => exact ih (window_advance h)

theorem skip_skip (p : Parser σ) (m n : Nat) : (p.skip m).skip n = p.skip (m + n) := by
  induction m generalizing p with
  | zero => rw [Nat.zero_add]; rfl
  | succ m ih => rw [Nat.succ_add]; exact ih p.advance

theorem EndStays.of_window {p q : Parser σ} {count : Nat} (h : p.EndStays)
    (hq : q.window = (p.skip count).window) : q.EndStays := by
  intro more hend
  have hw := window_skip hq more
  rw [skip_skip] at hw
  simp only [window, Prod.mk.injEq] at hw
  rw [hw.1] at hend
  rw [hw.2.1]
  exact h (count + more) hend

end Parser

/-! ## Counting diagnostics -/

namespace Parser

omit [TokenSource σ]

/-- How many of the diagnostics are of some sort. -/
def count (sort : Diagnostic → Bool) (parser : Parser σ) : Nat :=
  parser.diagnostics.toList.countP sort

theorem count_record (sort : Diagnostic → Bool) (parser : Parser σ) (cause : Cause)
    (position : Position) :
    (parser.record cause position).count sort =
      parser.count sort + if sort ⟨cause, position⟩ then 1 else 0 := by
  simp [count, record, List.countP_append, List.countP_cons]

end Parser

/-! ## Parsers that come later -/

/-- A parser as it may be left behind by reading something. -/
structure Parser.Follows (before after : Parser σ) : Prop where
  tables : after.tables = before.tables
  options : after.options = before.options
  depth : after.depth = before.depth
  window : ∃ count, after.window = (before.skip count).window
  diagnostics : before.diagnostics.toList <+: after.diagnostics.toList

namespace Parser.Follows

theorem refl (parser : Parser σ) : parser.Follows parser :=
  ⟨rfl, rfl, rfl, ⟨0, rfl⟩, List.prefix_rfl⟩

theorem trans {a b c : Parser σ} (hab : a.Follows b) (hbc : b.Follows c) : a.Follows c := by
  obtain ⟨m, hm⟩ := hab.window
  obtain ⟨n, hn⟩ := hbc.window
  refine ⟨hbc.tables.trans hab.tables, hbc.options.trans hab.options, hbc.depth.trans hab.depth,
    ⟨m + n, ?_⟩, hab.diagnostics.trans hbc.diagnostics⟩
  rw [hn, window_skip hm, skip_skip]

theorem advance (parser : Parser σ) : parser.Follows parser.advance :=
  ⟨rfl, rfl, rfl, ⟨1, rfl⟩, List.prefix_rfl⟩

theorem write (parser : Parser σ) (entry : LogEntry) : parser.Follows (parser.write entry) :=
  ⟨rfl, rfl, rfl, ⟨0, rfl⟩, List.prefix_rfl⟩

theorem record (parser : Parser σ) (cause : Cause) (position : Position) :
    parser.Follows (parser.record cause position) := by
  refine ⟨rfl, rfl, rfl, ⟨0, rfl⟩, ?_⟩
  simp [Parser.record]

theorem size_le {before after : Parser σ} (h : before.Follows after) :
    before.diagnostics.size ≤ after.diagnostics.size := by
  simpa using h.diagnostics.length_le

theorem endStays {before after : Parser σ} (h : before.Follows after) (hend : before.EndStays) :
    after.EndStays := by
  obtain ⟨count, hcount⟩ := h.window
  exact hend.of_window hcount

/-- What is read one level of nesting further in is left on the level it was started on. -/
theorem leaveNesting {before after : Parser σ}
    (h : { before with depth := before.depth + 1 }.Follows after) :
    before.Follows after.leaveNesting := by
  obtain ⟨count, hcount⟩ := h.window
  have hsame : { before with depth := before.depth + 1 }.window = before.window := rfl
  refine ⟨h.tables, h.options, ?_, ⟨count, Eq.trans hcount (window_skip hsame count)⟩,
    h.diagnostics⟩
  have hdepth := h.depth
  simp only [Parser.leaveNesting] at hdepth ⊢
  omega

end Parser.Follows

theorem Parser.EndStays.advance {parser : Parser σ} (h : parser.EndStays) :
    parser.advance.EndStays :=
  (Parser.Follows.advance parser).endStays h

theorem Parser.EndStays.write {parser : Parser σ} (h : parser.EndStays) (entry : LogEntry) :
    (parser.write entry).EndStays :=
  (Parser.Follows.write parser entry).endStays h

/-! ## Outcomes -/

namespace Outcome

/-- An outcome that leaves a parser as it may be left behind. -/
def Keeps (before : Parser σ) : Outcome σ α → Prop
  | ok _ after => before.Follows after
  | absent after => before.Follows after
  | stuck => True

/-- An outcome that leaves a parser as it may be left behind and, without a value, with a new
diagnostic. -/
def Framed (before : Parser σ) : Outcome σ α → Prop
  | ok _ after => before.Follows after
  | absent after => before.Follows after ∧ before.diagnostics.size < after.diagnostics.size
  | stuck => True

theorem Framed.keeps {before : Parser σ} {outcome : Outcome σ α} (h : outcome.Framed before) :
    outcome.Keeps before := by
  cases outcome with
  | ok value after => exact h
  | absent after => exact h.1
  | stuck => trivial

/-- What holds of an outcome holds of it for an earlier parser. -/
theorem Framed.of_follows {before mid : Parser σ} {outcome : Outcome σ α}
    (hmid : before.Follows mid) (h : outcome.Framed mid) : outcome.Framed before := by
  cases outcome with
  | ok value after => exact hmid.trans h
  | absent after => exact ⟨hmid.trans h.1, Nat.lt_of_le_of_lt hmid.size_le h.2⟩
  | stuck => trivial

end Outcome

/-! ## Actions -/

/-- An action all of whose outcomes are framed. -/
def ParserM.Framed (action : ParserM σ α) : Prop :=
  ∀ parser, (action.run parser).Framed parser

/-- An action all of whose outcomes leave a parser as it may be left behind. -/
def ParserM.Keeps (action : ParserM σ α) : Prop :=
  ∀ parser, (action.run parser).Keeps parser

namespace ParserM.Framed

theorem keeps {action : ParserM σ α} (h : action.Framed) : action.Keeps :=
  fun parser => (h parser).keeps

theorem pure (value : α) : (Pure.pure value : ParserM σ α).Framed :=
  fun parser => .refl parser

theorem get : (ParserM.get : ParserM σ (Parser σ)).Framed :=
  fun parser => .refl parser

theorem current : (ParserM.current : ParserM σ Token).Framed :=
  fun parser => .refl parser

theorem peekIs (kind : TokenKind) : (ParserM.peekIs kind : ParserM σ Bool).Framed :=
  fun parser => .refl parser

theorem advance : (ParserM.advance : ParserM σ Unit).Framed :=
  fun parser => .advance parser

theorem announce (event : Event) : (ParserM.announce event : ParserM σ Unit).Framed :=
  fun parser => .write parser (.event event)

theorem fail (cause : Cause) : (ParserM.fail cause : ParserM σ α).Framed := by
  intro parser
  refine ⟨.record parser cause _, ?_⟩
  simp [Parser.record]

theorem expect (kind : TokenKind) : (ParserM.expect kind : ParserM σ Unit).Framed := by
  intro parser
  rw [run_expect]
  split
  next => exact .advance parser
  next =>
    refine ⟨.record parser _ _, ?_⟩
    simp [Parser.record]

theorem bind {action : ParserM σ α} {next : α → ParserM σ β} (h : action.Framed)
    (hnext : ∀ value, (next value).Framed) : (action >>= next).Framed := by
  intro parser
  have hrun := h parser
  rw [run_bind]
  cases out : action.run parser with
  | ok value after =>
    rw [out] at hrun
    exact (hnext value after).of_follows hrun
  | absent after => rw [out] at hrun; exact hrun
  | stuck => trivial

theorem attempt {action : ParserM σ α} (h : action.Framed) : (ParserM.attempt action).Framed := by
  intro parser
  have hrun := (h parser).keeps
  rw [run_attempt]
  cases out : action.run parser with
  | ok value after => rw [out] at hrun; exact hrun
  | absent after => rw [out] at hrun; exact hrun
  | stuck => trivial

theorem nested {action : ParserM σ α} (h : action.Framed) : (ParserM.nested action).Framed := by
  intro parser
  rw [run_nested]
  split
  next =>
    have hrun := h { parser with depth := parser.depth + 1 }
    cases out : action.run { parser with depth := parser.depth + 1 } with
    | ok value after => rw [out] at hrun; exact hrun.leaveNesting
    | absent after => rw [out] at hrun; exact ⟨hrun.1.leaveNesting, hrun.2⟩
    | stuck => trivial
  next =>
    refine ⟨.record parser _ _, ?_⟩
    simp [Parser.record]

theorem ite {c : Prop} [Decidable c] {a b : ParserM σ α} (ha : a.Framed) (hb : b.Framed) :
    (if c then a else b).Framed := by
  split
  next => exact ha
  next => exact hb

end ParserM.Framed

/-- Ending a statement that has its value is framed. -/
theorem framed_finishStatement (value : Expression) :
    (finishStatement (some value) : ParserM σ Expression).Framed := by
  have hvalue : (Pure.pure value : ParserM σ Expression).Framed := .pure value
  refine (ParserM.Framed.peekIs .semicolon).bind fun there => .ite ?_ ?_
  · exact ParserM.Framed.advance.bind fun _ => hvalue
  · refine hvalue.bind fun _ => ParserM.Framed.get.bind fun parser => .ite (.pure _) ?_
    exact (ParserM.Framed.expect .semicolon).bind fun _ => .pure _

/-- A statement that has no value ends without one and changes nothing but its window. -/
theorem run_finishStatement_none (parser : Parser σ) :
    (finishStatement none).run parser =
      .absent (if parser.peek.kind = .semicolon then parser.advance else parser) := by
  unfold finishStatement
  rw [run_bind, run_peekIs]
  by_cases h : parser.peek.kind = .semicolon
  · simp only [h, decide_true, if_true]
    rfl
  · simp only [h, decide_false, Bool.false_eq_true, if_false]
    rfl

/-- How a statement that has its value ends. -/
theorem run_finishStatement_some (value : Expression) (parser : Parser σ) :
    (finishStatement (some value)).run parser =
      if parser.peek.kind = .semicolon then .ok value parser.advance
      else if parser.options.mayEndBefore parser.peek.kind then .ok value parser
      else .absent (parser.record (.unexpectedToken .semicolon parser.peek.kind)
        parser.peek.span.start) := by
  unfold finishStatement
  rw [run_bind, run_peekIs]
  by_cases hsemicolon : parser.peek.kind = .semicolon
  · simp only [hsemicolon, decide_true, if_true]
    rfl
  · simp only [hsemicolon, decide_false, Bool.false_eq_true, if_false]
    change (if _ then _ else _ : ParserM σ Expression).run parser = _
    split
    next => rfl
    next =>
      rw [run_bind, run_expect, if_neg hsemicolon]

theorem keeps_finishStatement (value : Option Expression) :
    (finishStatement value : ParserM σ Expression).Keeps := by
  cases value with
  | some value => exact (framed_finishStatement value).keeps
  | none =>
    intro parser
    rw [run_finishStatement_none]
    split
    next => exact .advance parser
    next => exact .refl parser

theorem framed_integerOperand : (integerOperand : ParserM σ Expression).Framed := by
  intro parser
  change (integerOperand parser).Framed parser
  unfold integerOperand
  split
  next => exact .refl parser
  next => exact .record parser _ _

/-- An absent value was already accounted for when the end of the statement is looked for. -/
theorem framed_statementValue {value : ParserM σ Expression} (h : value.Framed) :
    (ParserM.attempt value >>= finishStatement).Framed := by
  intro parser
  have hrun := h parser
  rw [run_bind, run_attempt]
  cases out : value.run parser with
  | ok value after =>
    rw [out] at hrun
    exact (framed_finishStatement value after).of_follows hrun
  | absent after =>
    rw [out] at hrun
    have hend := keeps_finishStatement none after
    simp only
    rw [run_finishStatement_none] at hend ⊢
    exact ⟨hrun.1.trans hend, Nat.lt_of_lt_of_le hrun.2 hend.size_le⟩
  | stuck => trivial

/-! ## Routines -/

/-- Routines each of which is framed. -/
structure Routines.Framed (r : Routines σ) : Prop where
  expression (limit : Precedence) : (r.expression limit).Framed
  operators (limit : Precedence) (left : Expression) : (r.operators limit left).Framed
  parameters : r.parameters.Framed
  arguments : r.arguments.Framed
  statement : r.statement.Framed
  statements (region : Region) : (r.statements region).Framed

/-- Being framed by rules for single actions: it is about one action, so nothing is asked of a
second one. -/
def framingRules (σ : Type) [TokenSource σ] : ActionRules σ σ Unit where
  values := .all
  inner := id
  Relates _ _ _ a _ := a.Framed
  stuck _ := trivial
  pure _ := .pure _
  bind _ h hnext := h.bind fun value => hnext (j := ()) (w := value) trivial
  get h := ParserM.Framed.get.bind fun parser => h parser parser (.refl parser)
  announce _ h := (ParserM.Framed.announce _).bind fun _ => h
  advance h := ParserM.Framed.advance.bind fun _ => h
  expect _ h := (ParserM.Framed.expect _).bind fun _ => h
  missing _ := .fail _
  ite h h' := h.ite h'
  nested h := h.nested
  integer := framed_integerOperand
  statementValue h := framed_statementValue h
  ofValue h _ := h.bind fun _ => .pure _

/-- Being framed, as a congruence. -/
def framing (σ : Type) [TokenSource σ] : Congruence σ σ Unit :=
  (framingRules σ).congruence

theorem framing_statementRules : (framing σ).StatementRules := by
  refine (framingRules σ).statementRules (fun h => ?_) fun h => h.attempt
  exact (ParserM.Framed.announce _).bind fun _ => h

theorem framing_affords {fuel extra unread : Nat} : (framing σ).Affords fuel extra unread :=
  (framingRules σ).affords

theorem framing_holds (left : Expression) : (framing σ).values.holds .operand () () left left :=
  trivial

namespace Routines.Framed

variable {r : Routines σ}

theorem keeps (h : r.Framed) : (framing σ).Keeps 0 r r where
  expression limit _ := h.expression limit
  operators limit _ _ _ _ := h.operators limit _
  parameters _ := h.parameters
  arguments _ := h.arguments
  braces := framing_statementRules.braces fun _ => h.statements .block
  statement _ := h.statement
  statements region _ := h.statements region

theorem of_keeps {fuel : Nat} {r' : Routines σ} (h : (framing σ).Keeps fuel r r') : r.Framed where
  expression limit := h.expression (n := 0) (i := ()) limit framing_affords
  operators limit left := h.operators (n := 0) limit (framing_holds left) framing_affords
  parameters := h.parameters (n := 0) (i := ()) framing_affords
  arguments := h.arguments (n := 0) (i := ()) framing_affords
  statement := h.statement (n := 0) (i := ()) framing_affords
  statements region := h.statements (n := 0) (i := ()) region framing_affords

theorem statementValue (h : r.Framed) : r.statementValue.Framed :=
  framed_statementValue (h.expression .lowest)

theorem block (h : r.Framed) : r.block.Framed :=
  h.keeps.block (n := 0) (i := ()) framing_statementRules framing_affords

theorem statementBy (h : r.Framed) (rule : StatementRule) : (r.statementBy rule).Framed :=
  h.keeps.statementBy (n := 0) (i := ()) framing_statementRules framing_affords
    (fun _ => framing_affords) fun _ => framing_affords

theorem alternative (h : r.Framed) : r.alternative.Framed :=
  h.keeps.alternative (n := 0) (i := ()) framing_affords

theorem parameterList (h : r.Framed) : r.parameterList.Framed :=
  h.keeps.parameterList (n := 0) (i := ()) framing_affords

theorem operandBy (h : r.Framed) (rule : OperandRule) : (r.operandBy rule).Framed :=
  h.keeps.operandBy (n := 0) (i := ()) framing_affords framing_affords rule

theorem operatorBy (h : r.Framed) (left : Expression) (precedence : Precedence)
    (rule : OperatorRule) : (r.operatorBy left precedence rule).Framed :=
  h.keeps.operatorBy (n := 0) framing_affords (framing_holds left) precedence rule

end Routines.Framed

/-- Every routine is framed, with any number of steps. -/
theorem routines_framed (fuel : Nat) : (routines fuel : Routines σ).Framed :=
  .of_keeps ((framing σ).keeps_routines framing_statementRules fuel)

/-! ## Actions that only move on -/

/-- An action that leaves a parser as it may be left behind, for instances to find. -/
class ParserM.Steady (action : ParserM σ α) : Prop where
  keeps : action.Keeps

/-- Routines each of which leaves a parser as it may be left behind. -/
class Routines.Steady (r : Routines σ) : Prop where
  framed : r.Framed

theorem Outcome.Keeps.of_follows {before mid : Parser σ} {outcome : Outcome σ α}
    (hmid : before.Follows mid) (h : outcome.Keeps mid) : outcome.Keeps before := by
  cases outcome with
  | ok value after => exact hmid.trans h
  | absent after => exact hmid.trans h
  | stuck => trivial

namespace ParserM.Steady

instance pure (value : α) : Steady (Pure.pure value : ParserM σ α) :=
  ⟨(Framed.pure value).keeps⟩

instance current : Steady (ParserM.current : ParserM σ Token) :=
  ⟨Framed.current.keeps⟩

instance advance : Steady (ParserM.advance : ParserM σ Unit) :=
  ⟨Framed.advance.keeps⟩

instance expect (kind : TokenKind) : Steady (ParserM.expect kind : ParserM σ Unit) :=
  ⟨(Framed.expect kind).keeps⟩

instance bind {action : ParserM σ α} {next : α → ParserM σ β} [h : Steady action]
    [hnext : ∀ value, Steady (next value)] : Steady (action >>= next) where
  keeps parser := by
    have hrun := h.keeps parser
    rw [run_bind]
    cases out : action.run parser with
    | ok value after =>
      rw [out] at hrun
      exact ((hnext value).keeps after).of_follows hrun
    | absent after => rw [out] at hrun; exact hrun
    | stuck => trivial

instance attempt {action : ParserM σ α} [h : Steady action] :
    Steady (ParserM.attempt action) where
  keeps parser := by
    have hrun := h.keeps parser
    rw [run_attempt]
    cases out : action.run parser with
    | ok value after => rw [out] at hrun; exact hrun
    | absent after => rw [out] at hrun; exact hrun
    | stuck => trivial

instance finishStatement (value : Option Expression) :
    Steady (Monkey.finishStatement value : ParserM σ Expression) :=
  ⟨keeps_finishStatement value⟩

section Routines

variable {r : Routines σ} [h : r.Steady]

instance expression (limit : Precedence) : Steady (r.expression limit) :=
  ⟨(h.framed.expression limit).keeps⟩

instance operators (limit : Precedence) (left : Expression) : Steady (r.operators limit left) :=
  ⟨(h.framed.operators limit left).keeps⟩

instance parameters : Steady r.parameters :=
  ⟨h.framed.parameters.keeps⟩

instance arguments : Steady r.arguments :=
  ⟨h.framed.arguments.keeps⟩

instance statements (region : Region) : Steady (r.statements region) :=
  ⟨(h.framed.statements region).keeps⟩

instance statementValue : Steady r.statementValue :=
  ⟨h.framed.statementValue.keeps⟩

instance block : Steady r.block :=
  ⟨h.framed.block.keeps⟩

instance alternative : Steady r.alternative :=
  ⟨h.framed.alternative.keeps⟩

instance parameterList : Steady r.parameterList :=
  ⟨h.framed.parameterList.keeps⟩

instance statement : Steady r.statement :=
  ⟨h.framed.statement.keeps⟩

instance operandBy (rule : OperandRule) : Steady (r.operandBy rule) :=
  ⟨(h.framed.operandBy rule).keeps⟩

instance operatorBy (left : Expression) (precedence : Precedence) (rule : OperatorRule) :
    Steady (r.operatorBy left precedence rule) :=
  ⟨(h.framed.operatorBy left precedence rule).keeps⟩

end Routines

end ParserM.Steady

instance (fuel : Nat) : (routines fuel : Routines σ).Steady :=
  ⟨routines_framed fuel⟩

end Monkey
