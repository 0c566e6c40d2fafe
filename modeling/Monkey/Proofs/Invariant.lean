import Monkey.Proofs.Coupling

/-!
# Invariants of parsing

Often the second of two readings is known beforehand: it is done by the parser of the first one, or
by one with something about it replaced (`Beside`). Then only the first parser is left to speak of,
and a coupling is an invariant of it. What such an invariant has to survive is little: the current
token comes to count as something else (`Parser.Turns`), the next token becomes the current one
(`Parser.Moves`), or something is found wrong with a token (`Parser.Finds`); nesting and the log
make no difference to it (`Parser.view`). An `Invariant` that survives these is a coupling
(`Invariant.coupling`), and so holds of what a parse leaves behind (`Invariant.parse`).
-/

namespace Monkey

open ParserM

variable {σ τ ι : Type} [TokenSource σ] [TokenSource τ]

/-! ## Parsers beside others -/

/-- For each parser another one, which goes along with every step of it. -/
structure Beside (σ τ : Type) [TokenSource σ] [TokenSource τ] where
  parser : Parser σ → Parser τ
  advance (p : Parser σ) : (parser p).advance = parser p.advance := by intros; rfl
  write (p : Parser σ) (entry : LogEntry) : (parser p).write entry = parser (p.write entry) := by
    intros; rfl
  record (p : Parser σ) (cause : Cause) (place : Position) :
    (parser p).record cause place = parser (p.record cause place) := by intros; rfl
  depth (p : Parser σ) : (parser p).depth = p.depth := by intros; rfl
  toDepth (p : Parser σ) (depth : Nat) :
    { parser p with depth := depth } = parser { p with depth := depth } := by intros; rfl
  strict (p : Parser σ) : (parser p).options.strictSemicolons = p.options.strictSemicolons := by
    intros; rfl
  tables {p : Parser σ} : p.tables = .standard p.options →
    (parser p).tables = .standard (parser p).options
  -- what is the same of the tokens in view
  currentKind (p : Parser σ) : (parser p).current.kind = p.current.kind := by intros; rfl
  currentSpan (p : Parser σ) : (parser p).current.span = p.current.span := by intros; rfl
  peekKind (p : Parser σ) : (parser p).peek.kind = p.peek.kind := by intros; rfl
  peekSpan (p : Parser σ) : (parser p).peek.span = p.peek.span := by intros; rfl
  integer {p : Parser σ} : p.current.kind = .integer →
    (parser p).current.text = p.current.text := by intros; rfl

/-- Each parser beside itself. -/
def Beside.same (σ : Type) [TokenSource σ] : Beside σ σ where
  parser p := p
  tables h := h

/-! ## What a step does -/

namespace Parser

/-- What is left of a parser without its count of nesting and its log. -/
def view (p : Parser σ) : (Token × Token × σ) × Tables × Options × Array Diagnostic :=
  (p.window, p.tables, p.options, p.diagnostics)

theorem view_advance {p p' : Parser σ} (h : p'.view = p.view) :
    p'.advance.view = p.advance.view := by
  simp only [view, Prod.mk.injEq] at h ⊢
  exact ⟨window_advance h.1, h.2⟩

/-- The current token comes to count as something else: as the first one of a statement, as taken,
or as the last one of an operand, which may be a block. -/
inductive Turns (inner : ι → ι) (p : Parser σ) : Stage → ι → Stage → ι → Prop where
  | start {i : ι} (hmore : p.current.kind ≠ .endOfInput) : Turns inner p .between i .facing i
  | take {i : ι} : Turns inner p .facing i .taken i
  | leave {i : ι} : Turns inner p .operand i .taken i
  | operand {i : ι}
    (hkind : p.current.kind ∈ [.identifier, .integer, .trueWord, .falseWord, .closeParen]) :
    Turns inner p .facing i .operand i
  | block {i : ι} (hends : Region.block.endsAt p.current.kind = true) :
    Turns inner p .between (inner i) .operand i

/-- The next token becomes the current one. -/
inductive Moves (inner : ι → ι) (p : Parser σ) : Stage → ι → Stage → ι → Prop where
  | advance {i : ι} (hmore : p.More) : Moves inner p .taken i .facing i
  | next {i : ι} : Moves inner p .taken i .between i
  | enter {i : ι} (hopen : p.current.kind = .openCurly) :
    Moves inner p .taken i .between (inner i)
  | recover {i : ι} : Moves inner p .failed i .between i
  | skip {i : ι} (hsemicolon : p.peek.kind = .semicolon) : Moves inner p .failed i .failed i

/-- Something is found wrong with a token in view. -/
inductive Finds (p : Parser σ) : Stage → Cause → Token → Stage → Prop where
  | unexpected {kind : TokenKind} (hne : p.peek.kind ≠ kind) :
    Finds p .taken (.unexpectedToken kind p.peek.kind) p.peek .failed
  | missing (hnone : Tables.standardOperand? p.current.kind = none) :
    Finds p .facing (.missingOperand p.current.kind) p.current .failed
  | tooDeep : Finds p .facing (.nestingTooDeep maxNesting) p.current .failed
  | outOfRange (hkind : p.current.kind = .integer)
    (hread : Text.readInt64? p.current.text.toList = none) :
    Finds p .facing (.integerOutOfRange p.current.text) p.current .operand

end Parser

/-! ## Invariants -/

/-- What holds of a parser at every stage of reading, with the values that it and the parser beside
it read. -/
structure Invariant (B : Beside σ τ) (ι : Type) where
  values : Values
  /-- the level of the statements in a block -/
  inner : ι → ι
  holds : Stage → ι → Parser σ → Prop
  tables {i : ι} {p : Parser σ} : holds .taken i p → p.tables = .standard p.options
  operators {i : ι} {p : Parser σ} : holds .operand i p →
    p.tables.operator? p.peek.kind = (B.parser p).tables.operator? p.peek.kind := by
      intros; rfl
  -- what it survives
  turn {stage stage' : Stage} {i i' : ι} {p : Parser σ} : holds stage i p →
    p.Turns inner stage i stage' i' → holds stage' i' p
  advance {stage stage' : Stage} {i i' : ι} {p : Parser σ} : holds stage i p →
    p.Moves inner stage i stage' i' → holds stage' i' p.advance
  record {stage stage' : Stage} {i : ι} {p : Parser σ} {cause : Cause} {token : Token} :
    holds stage i p → p.Finds stage cause token stage' →
    holds stage' i (p.record cause token.span.start)
  of_view {stage : Stage} {i : ι} {p p' : Parser σ} : holds stage i p → p'.view = p.view →
    holds stage i p'
  -- what is read off a token
  name {i : ι} {p : Parser σ} : holds .facing i p → p.current.kind = .identifier →
    values.name p.current.text (B.parser p).current.text := by intros; rfl
  sign {i : ι} {p : Parser σ} : holds .facing i p →
    Tables.standardOperand? p.current.kind = some .unary →
    values.sign p.current.text (B.parser p).current.text := by intros; rfl
  operator {i : ι} {p : Parser σ} {precedence : Precedence} : holds .facing i p →
    p.tables.operator? p.current.kind = some (precedence, .binary) →
    values.operator p.current.text (B.parser p).current.text := by intros; rfl
  calls {i : ι} {p : Parser σ} : holds .facing i p → p.options.calls = true →
    values.calls := by intros; trivial
  integer {i : ι} {p : Parser σ} {value : Int64} : holds .facing i p →
    p.current.kind = .integer →
    value = 0 ∨ Text.readInt64? p.current.text.toList = some value →
    values.expression (.integer value p.current.text) (.integer value p.current.text) := by
      intros; rfl

namespace Invariant

variable {B : Beside σ τ} (I : Invariant B ι)

/-- The parser of the second reading is the one beside that of the first, of which the invariant
holds. -/
def Holds (stage : Stage) (i : ι) (p : Parser σ) (q : Parser τ) : Prop :=
  q = B.parser p ∧ I.holds stage i p

variable {I} {i : ι} {p : Parser σ} {q : Parser τ}

theorem Holds.turn {stage stage' : Stage} {i' : ι} (h : I.Holds stage i p q)
    (hturns : p.Turns I.inner stage i stage' i') : I.Holds stage' i' p q :=
  ⟨h.1, I.turn h.2 hturns⟩

theorem Holds.advance {stage stage' : Stage} {i' : ι} (h : I.Holds stage i p q)
    (hmoves : p.Moves I.inner stage i stage' i') : I.Holds stage' i' p.advance q.advance := by
  obtain ⟨rfl, h⟩ := h
  exact ⟨B.advance p, I.advance h hmoves⟩

/-- The same is found wrong by both. -/
theorem Holds.record {stage stage' : Stage} (h : I.Holds stage i p q) {cause cause' : Cause}
    {token token' : Token} (hfinds : p.Finds stage cause token stage') (hcause : cause' = cause)
    (hspan : token'.span = token.span) :
    I.Holds stage' i (p.record cause token.span.start) (q.record cause' token'.span.start) := by
  obtain ⟨rfl, h⟩ := h
  rw [hcause, hspan]
  exact ⟨B.record p _ _, I.record h hfinds⟩

theorem Holds.toDepth {stage : Stage} (h : I.Holds stage i p q) (depth : Nat) :
    I.Holds stage i { p with depth := depth } { q with depth := depth } := by
  obtain ⟨rfl, h⟩ := h
  exact ⟨B.toDepth p depth, I.of_view h rfl⟩

theorem Holds.leaveNesting {stage : Stage} (h : I.Holds stage i p q) :
    I.Holds stage i p.leaveNesting q.leaveNesting := by
  have hdepth : q.depth = p.depth := by rw [h.1, B.depth]
  unfold Parser.leaveNesting
  rw [hdepth]
  exact h.toDepth _

theorem Holds.write {stage : Stage} (h : I.Holds stage i p q) (entry : LogEntry) :
    I.Holds stage i (p.write entry) (q.write entry) := by
  obtain ⟨rfl, h⟩ := h
  exact ⟨B.write p entry, I.of_view h rfl⟩

theorem Holds.alike (h : I.Holds .taken i p q) : p.Alike q := by
  obtain ⟨rfl, h⟩ := h
  have htables := I.tables h
  exact ⟨(B.depth p).symm, (B.strict p).symm, htables, B.tables htables⟩

theorem Holds.current_kind {stage : Stage} (h : I.Holds stage i p q) :
    q.current.kind = p.current.kind := by
  rw [h.1, B.currentKind]

theorem Holds.current_span {stage : Stage} (h : I.Holds stage i p q) :
    q.current.span = p.current.span := by
  rw [h.1, B.currentSpan]

theorem Holds.peek_kind {stage : Stage} (h : I.Holds stage i p q) :
    q.peek.kind = p.peek.kind := by
  rw [h.1, B.peekKind]

theorem Holds.peek_span {stage : Stage} (h : I.Holds stage i p q) :
    q.peek.span = p.peek.span := by
  rw [h.1, B.peekSpan]

/-- An integer counts as an operand, whether its value can be read or not. -/
theorem Holds.integer (h : I.Holds .facing i p q) (hkind : p.current.kind = .integer) :
    (integerOperand.run p).Coupled (fun _ => False) (I.Holds .failed i) (I.Holds .operand i)
      I.values.expression (integerOperand.run q) := by
  have htext : q.current.text = p.current.text := by rw [h.1, B.integer hkind]
  change (integerOperand p).Coupled _ _ _ _ (integerOperand q)
  unfold integerOperand
  rw [htext]
  cases hread : Text.readInt64? p.current.text.toList with
  | some value =>
    exact .ok (I.integer h.2 hkind (.inr hread)) (h.turn (.operand (by rw [hkind]; decide)))
  | none =>
    exact .ok (I.integer h.2 hkind (.inl rfl))
      (h.record (.outOfRange hkind hread) rfl h.current_span)

/-- A parser with an invariant goes side by side with the one beside it. -/
def coupling (I : Invariant B ι) : Coupling σ τ ι where
  values := I.values
  inner := I.inner
  gone _ := False
  holds := I.Holds
  gone_later h _ := h
  alike h := h.alike
  current_between h := h.current_kind.symm
  current_taken h := h.current_kind.symm
  peek_taken h := .inl h.peek_kind.symm
  peek_failed h := .inl h.peek_kind.symm
  operator_peek := by
    rintro i p q ⟨rfl, h⟩ hkind
    rw [← hkind]
    exact I.operators h
  facing_of_between h hmore := h.turn (.start hmore)
  taken_of_facing h := h.turn .take
  taken_of_operand h := h.turn .leave
  operand_of_facing h hkind := h.turn (.operand (List.Sublist.subset (by decide) hkind))
  operand_of_block h hends := h.turn (.block hends)
  advance h hmore := .inr (h.advance (.advance hmore))
  next h := .inr (h.advance .next)
  enter h hopen := .inr (h.advance (.enter hopen))
  recover h := .inr (h.advance .recover)
  failed_advance h hsemicolon _ := h.advance (.skip hsemicolon)
  write entry h := h.write entry
  deeper {i p q} h _ := by
    have hdepth : q.depth = p.depth := by rw [h.1, B.depth]
    rw [hdepth]
    exact h.toDepth _
  leave_operand h := h.leaveNesting
  leave_failed h := h.leaveNesting
  unexpected h _ hne := h.record (.unexpected hne) (by rw [h.peek_kind]) h.peek_span
  missing h hnone := h.record (.missing hnone) (by rw [h.current_kind]) h.current_span
  tooDeep h := h.record .tooDeep rfl h.current_span
  name := by
    rintro i p q ⟨rfl, h⟩ hkind
    exact I.name h hkind
  sign := by
    rintro i p q ⟨rfl, h⟩ hrule
    exact I.sign h hrule
  operator := by
    rintro i p q precedence ⟨rfl, h⟩ hrule
    exact I.operator h hrule
  calls h hcalls := I.calls h.2 hcalls
  integer h hkind := h.integer hkind

/-- An invariant that holds of a fresh parser holds of the one that a parse leaves behind, and what
was read and recorded is as the invariant says. -/
theorem parse (I : Invariant B ι) {supply : σ} {supply' : τ} {options options' : Options}
    (hbeside : .ofSupply supply' options' = B.parser (.ofSupply supply options))
    (h : I.holds .between i (.ofSupply supply options)) :
    ∃ p, I.holds .between i p ∧
      List.Forall₂ I.values.statement (Monkey.parse supply options).program.statements
        (Monkey.parse supply' options').program.statements ∧
      (Monkey.parse supply options).diagnostics = p.diagnostics.toList ∧
      (Monkey.parse supply' options').diagnostics = (B.parser p).diagnostics.toList := by
  obtain ⟨p, _, ⟨rfl, hlast⟩, hread⟩ := I.coupling.parse (fun _ => id) ⟨hbeside, h⟩
  exact ⟨p, hlast, hread⟩

end Invariant

end Monkey
