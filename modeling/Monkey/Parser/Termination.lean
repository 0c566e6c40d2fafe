import Monkey.Parser.Congruence

/-!
# Parsing ends

Tables keep the end of input to itself if nothing starts or goes on with it, and if no statement is
looked up in place of itself. With such tables every routine ends within a number of steps that
is linear in the tokens still unread, so the steps that a parser is given suffice: parsing what a
supply hands out always has a result (`parse?_isSome`).

The measure is `Parser.unread`, which goes down with every token that is taken until nothing but
the end of input is left. Between two tokens taken, routines call each other only in one order
(statements, statement, expression, operators), so four steps for each unread token are enough:
that an action ends with what is left of them is a congruence that counts tokens (`ending`).
-/

namespace Monkey

open ParserM

variable {σ α β : Type} [TokenSource σ]

/-! ## Unread tokens -/

namespace Parser

/-- A bound on the tokens that are still to be taken, the two in view included. -/
def unread (parser : Parser σ) : Nat :=
  if TokenSource.remaining parser.supply ≠ 0 then TokenSource.remaining parser.supply + 2
  else if parser.peek.kind ≠ .endOfInput then 2
  else if parser.current.kind ≠ .endOfInput then 1
  else 0

theorem unread_le (parser : Parser σ) :
    parser.unread ≤ TokenSource.remaining parser.supply + 2 := by
  unfold unread
  split
  · exact Nat.le_refl _
  · split
    · omega
    · split <;> omega

theorem unread_pos_of_peek {parser : Parser σ} (h : parser.peek.kind ≠ .endOfInput) :
    0 < parser.unread := by
  unfold unread
  split
  · omega
  · omega

theorem unread_pos_of_current {parser : Parser σ} (h : parser.current.kind ≠ .endOfInput) :
    0 < parser.unread := by
  unfold unread
  split
  · omega
  · split
    · omega
    · omega

/-- Taking a token leaves fewer unread, unless there were none. -/
theorem unread_advance (parser : Parser σ) : parser.advance.unread ≤ parser.unread - 1 := by
  by_cases more : TokenSource.remaining parser.supply = 0
  · have drained := TokenSource.remaining_next_of_drained parser.supply more
    have last := TokenSource.kind_next_of_drained parser.supply more
    simp only [unread, advance, more, drained, last, ne_eq, not_true_eq_false, if_false]
    by_cases h : parser.peek.kind = .endOfInput <;> simp [h]
  · have less := TokenSource.remaining_next_lt parser.supply (Nat.pos_of_ne_zero more)
    have bound := parser.advance.unread_le
    have before : parser.unread = TokenSource.remaining parser.supply + 2 := by
      unfold unread; rw [if_pos more]
    have after : TokenSource.remaining parser.advance.supply =
        TokenSource.remaining (TokenSource.next parser.supply).2 := rfl
    omega

end Parser

/-! ## Outcomes that are not stuck -/

/-- An outcome that is not stuck, keeps the tables and leaves at most so many tokens unread. -/
def Outcome.Ends (tables : Tables) (bound : Nat) : Outcome σ α → Prop
  | ok _ parser => parser.tables = tables ∧ parser.unread ≤ bound
  | absent parser => parser.tables = tables ∧ parser.unread ≤ bound
  | stuck => False

namespace Outcome.Ends

variable {tables : Tables} {bound : Nat} {parser : Parser σ}

theorem ok {value : α} (same : parser.tables = tables) (le : parser.unread ≤ bound) :
    (Outcome.ok value parser).Ends tables bound :=
  ⟨same, le⟩

theorem absent (same : parser.tables = tables) (le : parser.unread ≤ bound) :
    (Outcome.absent parser : Outcome σ α).Ends tables bound :=
  ⟨same, le⟩

theorem mono {b l : Nat} {outcome : Outcome σ α} (h : outcome.Ends tables b) (le : b ≤ l) :
    outcome.Ends tables l := by
  cases outcome with
  | ok value parser => exact ⟨h.1, Nat.le_trans h.2 le⟩
  | absent parser => exact ⟨h.1, Nat.le_trans h.2 le⟩
  | stuck => exact h

theorem ne_stuck {outcome : Outcome σ α} (h : outcome.Ends tables bound) : outcome ≠ .stuck := by
  rintro rfl
  exact h

end Outcome.Ends

/-! ## Actions that end -/

/-- An action that ends if so many tokens are unread, and leaves no more of them. -/
def ParserM.EndsWithin (tables : Tables) (unread : Nat) (action : ParserM σ α) : Prop :=
  ∀ parser : Parser σ, parser.tables = tables → parser.unread ≤ unread →
    (action.run parser).Ends tables unread

namespace ParserM.EndsWithin

variable {tables : Tables} {unread : Nat} {kind : TokenKind}

theorem pure (value : α) : (Pure.pure value : ParserM σ α).EndsWithin tables unread :=
  fun _ same le => .ok same le

theorem bind {action : ParserM σ α} {next : α → ParserM σ β} (h : action.EndsWithin tables unread)
    (hnext : ∀ value, (next value).EndsWithin tables unread) :
    (action >>= next).EndsWithin tables unread := by
  intro parser same le
  have hrun := h parser same le
  rw [run_bind]
  cases out : action.run parser with
  | ok value after => rw [out] at hrun; exact hnext value after hrun.1 hrun.2
  | absent after => rw [out] at hrun; exact hrun
  | stuck => rw [out] at hrun; exact hrun

theorem get {next : Parser σ → ParserM σ β}
    (h : ∀ parser : Parser σ, parser.tables = tables → parser.unread ≤ unread →
      (next parser).EndsWithin tables unread) :
    (ParserM.get >>= next).EndsWithin tables unread :=
  fun parser same le => h parser same le parser same le

theorem announce (event : Event) :
    (ParserM.announce event : ParserM σ Unit).EndsWithin tables unread :=
  fun _ same le => .ok same le

theorem attempt {action : ParserM σ α} (h : action.EndsWithin tables unread) :
    (ParserM.attempt action).EndsWithin tables unread := by
  intro parser same le
  have hrun := h parser same le
  rw [run_attempt]
  cases out : action.run parser with
  | ok value after => rw [out] at hrun; exact hrun
  | absent after => rw [out] at hrun; exact hrun
  | stuck => rw [out] at hrun; exact hrun

theorem nested {action : ParserM σ α} (h : action.EndsWithin tables unread) :
    (ParserM.nested action).EndsWithin tables unread := by
  intro parser same le
  rw [run_nested]
  split
  next =>
    have hrun := h { parser with depth := parser.depth + 1 } same le
    cases out : action.run { parser with depth := parser.depth + 1 } with
    | ok value after => rw [out] at hrun; exact hrun
    | absent after => rw [out] at hrun; exact hrun
    | stuck => rw [out] at hrun; exact hrun
  next => exact .absent same le

/-- What an action that ends comes out with from a parser with so many tokens unread. -/
theorem ends {action : ParserM σ α} {parser : Parser σ}
    (h : action.EndsWithin parser.tables parser.unread) :
    (action.run parser).Ends parser.tables parser.unread :=
  h parser rfl (Nat.le_refl _)

theorem ite {c : Prop} [Decidable c] {a b : ParserM σ α} (ha : a.EndsWithin tables unread)
    (hb : b.EndsWithin tables unread) : (if c then a else b).EndsWithin tables unread := by
  split
  next => exact ha
  next => exact hb

theorem fail (cause : Cause) : (ParserM.fail cause : ParserM σ α).EndsWithin tables unread :=
  fun _ same le => .absent same le

/-- Moving on takes a token, if there is one. -/
theorem advance {next : Unit → ParserM σ β} (h : (next ()).EndsWithin tables (unread - 1)) :
    (ParserM.advance >>= next).EndsWithin tables unread := by
  intro parser same le
  have less := parser.unread_advance
  have hrun := h parser.advance same (by omega)
  exact hrun.mono (Nat.sub_le unread 1)

/-- Moving on to a token that is not the end of input takes one. -/
theorem expect {next : Unit → ParserM σ β} (hkind : kind ≠ .endOfInput)
    (h : 0 < unread → (next ()).EndsWithin tables (unread - 1)) :
    (ParserM.expect kind >>= next).EndsWithin tables unread := by
  intro parser same le
  rw [run_bind, run_expect]
  by_cases hpeek : parser.peek.kind = kind
  · rw [if_pos hpeek]
    have pos : 0 < parser.unread := Parser.unread_pos_of_peek (hpeek ▸ hkind)
    have less := parser.unread_advance
    have hrun := h (by omega) parser.advance same (by omega)
    exact hrun.mono (Nat.sub_le unread 1)
  · rw [if_neg hpeek]
    exact .absent same le

/-- A token that is there and is not the end of input is unread. -/
theorem ifPeek {a a' : ParserM σ α} (hkind : kind ≠ .endOfInput)
    (h : 0 < unread → a.EndsWithin tables unread) (h' : a'.EndsWithin tables unread) :
    (peekIs kind >>= fun there => if there = true then a else a').EndsWithin tables unread := by
  intro parser same le
  rw [run_bind, run_peekIs]
  by_cases hpeek : parser.peek.kind = kind
  · simp only [hpeek, decide_true, if_true]
    have pos : 0 < parser.unread := Parser.unread_pos_of_peek (hpeek ▸ hkind)
    exact h (by omega) parser same le
  · simp only [hpeek, decide_false, Bool.false_eq_true, if_false]
    exact h' parser same le

end ParserM.EndsWithin

theorem endsWithin_finishStatement {tables : Tables} {unread : Nat} (value : Option Expression) :
    (finishStatement value : ParserM σ Expression).EndsWithin tables unread := by
  have hvalue {fewer : Nat} : (ofOption value : ParserM σ Expression).EndsWithin tables fewer := by
    cases value with
    | some value => exact .pure value
    | none => exact fun _ same le => .absent same le
  refine .ifPeek nofun (fun _ => .advance hvalue) ?_
  refine hvalue.bind fun value => ?_
  refine .get fun parser _ _ => .ite (.pure value) ?_
  exact .expect nofun fun _ => .pure value

theorem endsWithin_integerOperand {tables : Tables} {unread : Nat} :
    (integerOperand : ParserM σ Expression).EndsWithin tables unread := by
  intro parser same le
  change (integerOperand parser).Ends tables unread
  unfold integerOperand
  split
  next => exact .ok same le
  next => exact .ok same le

/-! ## Tables that keep the end of input to itself -/

/-- Tables that keep the end of input to itself. -/
structure Tables.KeepsEnd (tables : Tables) : Prop where
  statement : tables.statement? .endOfInput = none
  operand : tables.operand? .endOfInput = none
  operator : tables.operator? .endOfInput = none
  lookup : ∀ kind, tables.statement? kind ≠ some .lookup

namespace Tables.KeepsEnd

variable {tables : Tables} {unread : Nat}

theorem byStatement (keeps : tables.KeepsEnd) {next : Option StatementRule → ParserM σ Statement}
    (h : ∀ rule?, (∀ rule ∈ rule?, 0 < unread ∧ rule ≠ .lookup) →
      (next rule?).EndsWithin tables unread) :
    (ParserM.byStatement next).EndsWithin tables unread := by
  refine .get fun parser same le => ?_
  refine (ParserM.EndsWithin.announce _).bind fun _ => h _ fun rule found => ?_
  rw [same] at found
  refine ⟨?_, fun lookup => keeps.lookup _ (lookup ▸ found)⟩
  have pos : 0 < parser.unread := Parser.unread_pos_of_current fun eof => by
    rw [eof, keeps.statement] at found
    cases found
  omega

theorem byOperand (keeps : tables.KeepsEnd) {limit : Precedence}
    {next : OperandRule → ParserM σ Expression}
    (h : ∀ rule, 0 < unread → (next rule).EndsWithin tables unread) :
    (ParserM.byOperand limit next).EndsWithin tables unread := by
  refine .get fun parser same le => ?_
  refine (ParserM.EndsWithin.announce _).bind fun _ => ?_
  cases found : parser.tables.operand? parser.current.kind with
  | none => exact .fail _
  | some rule =>
    have pos : 0 < parser.unread := Parser.unread_pos_of_current fun eof => by
      rw [same, eof, keeps.operand] at found
      cases found
    exact h rule (by omega)

theorem byOperator (keeps : tables.KeepsEnd) {limit : Precedence} {left : Expression}
    {next : Precedence → OperatorRule → ParserM σ Expression}
    (h : ∀ precedence rule, 0 < unread → (next precedence rule).EndsWithin tables unread) :
    (ParserM.byOperator limit left next).EndsWithin tables unread := by
  refine .get fun parser same le => ?_
  cases found : parser.tables.operator? parser.peek.kind with
  | none => exact .pure left
  | some entry =>
    have pos : 0 < parser.unread := Parser.unread_pos_of_peek fun eof => by
      rw [same, eof, keeps.operator] at found
      cases found
    exact .ite (h entry.1 entry.2 (by omega)) (.pure left)

end Tables.KeepsEnd

/-- A region is over at the end of input. -/
theorem endsWithin_unlessOver {tables : Tables} {unread : Nat} {region : Region}
    {next : ParserM σ (List Statement)} (h : 0 < unread → next.EndsWithin tables unread) :
    (ParserM.unlessOver region next).EndsWithin tables unread := by
  intro parser same le
  unfold ParserM.unlessOver
  rw [run_bind, run_current]
  simp only
  split
  next => exact .ok same le
  next more =>
    have pos : 0 < parser.unread := Parser.unread_pos_of_current fun eof =>
      more (by rw [eof]; cases region <;> rfl)
    exact h (by omega) parser same le

theorem Tables.keepsEnd_standard (options : Options) : (standard options).KeepsEnd where
  statement := rfl
  operand := rfl
  operator := rfl
  lookup kind := by cases kind <;> exact fun h => by cases h

/-! ## Routines that end -/

/-- Ending, as a congruence: it is about one action, and with a step for each routine that is called
and four for each unread token the routines end. -/
def ending {tables : Tables} (keeps : tables.KeepsEnd) : Congruence σ σ Unit where
  values := .all
  inner := id
  counted := True
  Relates _ n _ _ a _ := a.EndsWithin tables n
  stuck h := absurd trivial h
  pure _ := .pure _
  bind _ h hnext := h.bind fun value => hnext (j := ()) (w := value) (Nat.le_refl _) trivial
  current h := fun parser => h parser.current parser
  advance h := .advance h
  expect hkind _ h := .expect hkind fun pos => h fun _ => pos
  ifPeek hkind h h' := .ifPeek hkind (fun pos => h fun _ => pos) h'
  nested h := h.nested
  integer := endsWithin_integerOperand
  byOperand h := keeps.byOperand fun rule pos => h rule fun _ => pos
  byOperator _ h := keeps.byOperator fun precedence rule pos => h precedence rule fun _ => pos
  statementValue h := h.attempt.bind endsWithin_finishStatement
  ofValue h _ := h.bind fun _ => .pure _

theorem ending_statementRules {tables : Tables} (keeps : tables.KeepsEnd) :
    (ending keeps : Congruence σ σ Unit).StatementRules where
  announceBlock h := (ParserM.EndsWithin.announce .block).bind fun _ => h
  byStatement h := keeps.byStatement fun rule? hrule => h rule? fun rule hmem _ => hrule rule hmem
  unlessOver h := endsWithin_unlessOver fun pos => h fun _ => pos
  attempt h := h.attempt

theorem ending_holds {tables : Tables} (keeps : tables.KeepsEnd) (left : Expression) :
    (ending keeps : Congruence σ σ Unit).values.holds .operand () () left left :=
  trivial

/-! ## The parser ends -/

theorem routines_endWithin {tables : Tables} (keeps : tables.KeepsEnd) (fuel : Nat) :
    (ending keeps).Keeps fuel (routines fuel : Routines σ) (routines fuel) :=
  (ending keeps).keeps_routines (ending_statementRules keeps) fuel

/-- The steps that a parser is given are enough for its unread tokens. -/
theorem Parser.steps_afford {tables : Tables} (keeps : tables.KeepsEnd) (parser : Parser σ)
    {fuel : Nat} (h : parser.steps ≤ fuel) :
    (ending keeps : Congruence σ σ Unit).Affords fuel 4 parser.unread := by
  intro _
  have hunread := parser.unread_le
  unfold steps maxNesting at h
  omega

/-- Reading the statements of a region always has a value: what fails is left out. -/
theorem statements_ne_absent (fuel : Nat) (region : Region) (parser after : Parser σ) :
    ((routines fuel).statements region).run parser ≠ .absent after := by
  induction fuel generalizing parser after with
  | zero => exact fun h => by cases h
  | succ fuel ih =>
    change ((routines fuel).statementsStep region).run parser ≠ .absent after
    unfold Routines.statementsStep
    rw [run_bind, run_current]
    simp only
    split
    next => exact fun h => by cases h
    next =>
      rw [run_bind]
      cases tried : (attempt (routines fuel).statement).run parser with
      | ok statement behind =>
        simp only
        rw [run_bind, run_advance]
        simp only
        rw [run_bind]
        cases rest : ((routines fuel).statements region).run behind.advance with
        | ok statements last => exact fun h => by cases h
        | absent last => exact absurd rest (ih behind.advance last)
        | stuck => exact fun h => by cases h
      | absent behind =>
        rw [run_attempt] at tried
        split at tried <;> cases tried
      | stuck => exact fun h => by cases h

/-- Reading a program with tables that keep the end of input to itself has a result. -/
theorem parseProgram_eq_ok (parser : Parser σ) (keeps : parser.tables.KeepsEnd) :
    ∃ program after, parseProgram.run parser = .ok program after := by
  let started := (parser.write .openedProgram).write .entered
  have statements := (routines_endWithin keeps started.steps).statements (i := ()) .program
    (started.steps_afford keeps (Nat.le_refl _))
  have ends := statements started rfl (Nat.le_refl _)
  have run : parseProgram.run parser =
      (withRoutines (fun r => r.statements .program) >>= fun statements => do
        modify fun parser =>
          parser.write (.event (.parsed statements.length parser.diagnostics.size))
        modify (·.write .left)
        return (⟨statements⟩ : Program)).run started := rfl
  rw [run, run_bind, run_withRoutines]
  cases read : ((routines started.steps).statements .program).run started with
  | ok statements after => exact ⟨_, _, rfl⟩
  | absent after => exact absurd read (statements_ne_absent _ _ _ _)
  | stuck => exact absurd read ends.ne_stuck

/-- Parsing what a supply hands out has a result. -/
theorem parse?_isSome (supply : σ) (options : Options) : (parse? supply options).isSome := by
  obtain ⟨program, after, eq⟩ :=
    parseProgram_eq_ok (.ofSupply supply options) (Tables.keepsEnd_standard options)
  rw [parse?, eq]
  rfl

end Monkey
