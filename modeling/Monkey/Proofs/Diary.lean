import Monkey.Proofs.Order

/-!
# Parsing with a diary

What happens in the course of a run is not to be seen from its outcome. To speak of it, the routines
are run over a supply that keeps a diary (`watched`): it counts the tokens that are taken, and it
notes each statement and each rule that the parser turns to and each expression it enters, one level
further in, with the parser as it stands there. The level changes nowhere else, so the moments that
are noted are the deepest ones. Nothing else is different: without its diary the parser is the one
that runs without (`routines_watched`), and no moment that is noted is deeper than the limit of
nesting or, unless it is just an expression, at the end of input (`Moment.Proper`).

The tokens that are taken can be counted in advance: one for each token, and behind the end of input
one for each block that is not closed and one for the statement around them (`Parser.Affords`).
-/

namespace Monkey

open ParserM TokenSource

variable {σ α : Type}

/-! ## Diaries -/

/-- What a parser turns to. -/
inductive Deed where
  /-- an expression, one level of nesting further in -/
  | deeper
  /-- a statement of a program or of a block -/
  | statement
  /-- an operand, by a rule -/
  | operand (rule : OperandRule)
  /-- what goes on behind an operand, by a rule -/
  | operator (rule : OperatorRule)
  deriving DecidableEq

/-- A parser that turns to something. -/
structure Moment (σ : Type) where
  deed : Deed
  parser : Parser σ

/-- A supply with the number of tokens that were taken from it and the moments that were noted, the
latest one first. -/
structure Diary (σ : Type) where
  supply : σ
  moves : Nat
  moments : List (Moment σ)

instance [TokenSource σ] : TokenSource (Diary σ) where
  next diary :=
    ((next diary.supply).1, ⟨(next diary.supply).2, diary.moves + 1, diary.moments⟩)
  remaining diary := remaining diary.supply
  remaining_next_lt diary := remaining_next_lt diary.supply
  remaining_next_of_drained diary := remaining_next_of_drained diary.supply
  kind_next_of_drained diary := kind_next_of_drained diary.supply

namespace Parser

/-- The parser without its diary. -/
def bare (parser : Parser (Diary σ)) : Parser σ :=
  ⟨parser.supply.supply, parser.current, parser.peek, parser.options, parser.tables, parser.depth,
    parser.diagnostics, parser.log⟩

/-- The parser with a new diary. -/
def withDiary (parser : Parser σ) : Parser (Diary σ) :=
  ⟨⟨parser.supply, 0, []⟩, parser.current, parser.peek, parser.options, parser.tables,
    parser.depth, parser.diagnostics, parser.log⟩

/-- Notes what the parser turns to. -/
def note (deed : Deed) (parser : Parser (Diary σ)) : Parser (Diary σ) :=
  { parser with
    supply := { parser.supply with moments := ⟨deed, parser.bare⟩ :: parser.supply.moments } }

end Parser

/-- The outcome without the diary. -/
def Outcome.bare : Outcome (Diary σ) α → Outcome σ α
  | ok value parser => ok value parser.bare
  | absent parser => absent parser.bare
  | stuck => stuck

/-- Notes what the parser turns to. -/
def ParserM.noting (deed : Deed) : ParserM (Diary σ) Unit :=
  modify (Parser.note deed)

/-! ## Watched routines -/

namespace Routines

variable [TokenSource σ] (routines : Routines (Diary σ))

/-- Reads an operand and the operators behind it, and notes the rule of the operand. -/
def watchedOperation (limit : Precedence) : ParserM (Diary σ) Expression :=
  byOperand limit fun rule => do
    noting (.operand rule)
    let left ← routines.operandBy rule
    routines.operators limit left

/-- One step of going on behind an operand, with the rule noted. -/
def watchedOperators (limit : Precedence) (left : Expression) : ParserM (Diary σ) Expression :=
  byOperator limit left fun precedence rule => do
    advance
    noting (.operator rule)
    let left ← routines.operatorBy left precedence rule
    routines.operators limit left

/-- One step of reading the statements of a region, with the statement noted. -/
def watchedStatements (region : Region) : ParserM (Diary σ) (List Statement) :=
  unlessOver region do
    noting .statement
    let statement ← routines.statementRound
    let rest ← routines.statements region
    return statement.toList ++ rest

end Routines

/-- The routines of the parser with what they turn to noted. -/
def watched [TokenSource σ] : Nat → Routines (Diary σ)
  | 0 => .stuck
  | fuel + 1 =>
    { expression := fun limit => nested do
        noting .deeper
        (watched fuel).watchedOperation limit
      operators := (watched fuel).watchedOperators
      parameters := (watched fuel).parametersStep
      arguments := (watched fuel).argumentsStep
      statement := (watched fuel).statementStep
      statements := (watched fuel).watchedStatements }

/-! ## What may be noted -/

/-- A moment within the limit of nesting and, unless it is just an expression, in front of a
token. -/
structure Moment.Proper (moment : Moment σ) : Prop where
  depth : moment.parser.depth ≤ maxNesting
  current : moment.deed ≠ .deeper → moment.parser.current.kind ≠ .endOfInput

/-- A parser of the language within the limit of nesting, with proper moments in its diary. -/
structure Parser.Proper (parser : Parser (Diary σ)) : Prop where
  tables : parser.tables = .standard parser.options
  depth : parser.depth ≤ maxNesting
  moments : ∀ moment ∈ parser.supply.moments, moment.Proper

namespace Parser.Proper

variable {parser : Parser (Diary σ)}

theorem withDiary {parser : Parser σ} (htables : parser.tables = .standard parser.options)
    (hdepth : parser.depth ≤ maxNesting) : parser.withDiary.Proper :=
  ⟨htables, hdepth, fun _ hmem => by cases hmem⟩

theorem note (h : parser.Proper) {deed : Deed}
    (hmore : deed ≠ .deeper → parser.current.kind ≠ .endOfInput) : (parser.note deed).Proper :=
  ⟨h.tables, h.depth, List.forall_mem_cons.2 ⟨⟨h.depth, hmore⟩, h.moments⟩⟩

theorem advance [TokenSource σ] (h : parser.Proper) : parser.advance.Proper :=
  ⟨h.tables, h.depth, h.moments⟩

theorem write (h : parser.Proper) (entry : LogEntry) : (parser.write entry).Proper :=
  ⟨h.tables, h.depth, h.moments⟩

theorem record (h : parser.Proper) (cause : Cause) (position : Position) :
    (parser.record cause position).Proper :=
  ⟨h.tables, h.depth, h.moments⟩

theorem enterNesting (h : parser.Proper) (hless : parser.depth < maxNesting) :
    { parser with depth := parser.depth + 1 }.Proper :=
  ⟨h.tables, hless, h.moments⟩

theorem leaveNesting (h : parser.Proper) : parser.leaveNesting.Proper :=
  ⟨h.tables, Nat.le_trans (Nat.sub_le _ _) h.depth, h.moments⟩

end Parser.Proper

/-! ## Tokens that may be taken -/

namespace Parser

variable [TokenSource σ] {p p' : Parser σ} {total level moves : Nat} {stage : Stage}

/-- The tokens to be taken up to the end of input, those that were taken included, are within a
total: behind the last token one more is taken for each block around the parser, and one for each
that is still to be opened. Between two statements at the end of input, one of them is taken
already. -/
def Affords (total level moves : Nat) (p : Parser σ) : Stage → Prop
  | .between => p.EndStays ∧
      (p.input ≠ [] → moves + p.input.length + braces p.input + level ≤ total) ∧
      moves + level ≤ total + 1
  | _ => p.EndStays ∧ moves + p.input.length + braces p.input + level ≤ total

/-- In front of a token, one token less is ahead. -/
theorem ahead_of_current (h : p.current.kind ≠ .endOfInput) :
    p.input.length = p.ahead.length + 1 ∧ braces p.ahead ≤ braces p.input := by
  rw [input_of_current h]
  exact ⟨rfl, braces_tail_le (p.current :: p.ahead)⟩

namespace Affords

theorem of_window (h : p.Affords total level moves stage) (hwindow : p'.window = p.window) :
    p'.Affords total level moves stage := by
  have hsame : p'.window = (p.skip 0).window := hwindow
  have hstays (hp : p.EndStays) : p'.EndStays := hp.of_window hsame
  have hinput : p'.input = p.input := by
    simp only [window, Prod.mk.injEq] at hwindow
    simp only [input, ahead, hwindow]
  cases stage with
  | between => exact ⟨hstays h.1, hinput ▸ h.2⟩
  | _ => exact ⟨hstays h.1, hinput ▸ h.2⟩

/-- Between two statements is the only stage with conditions of its own. -/
theorem toStage {stage' : Stage} (h : p.Affords total level moves stage)
    (hstage : stage ≠ .between) (hstage' : stage' ≠ .between) :
    p.Affords total level moves stage' := by
  cases stage with
  | between => exact absurd rfl hstage
  | _ =>
    cases stage' with
    | between => exact absurd rfl hstage'
    | _ => exact h

theorem next (h : p.Affords total level moves .taken) :
    p.advance.Affords total level (moves + 1) .between := by
  obtain ⟨hstays, hspare⟩ := h
  refine ⟨hstays.advance, fun hmore => ?_, by omega⟩
  rw [input_advance] at hmore ⊢
  obtain ⟨hlength, hbraces⟩ := ahead_of_current fun hend => hmore (hstays.ahead_eq_nil hend)
  omega

theorem facing (h : p.Affords total level moves .between)
    (hmore : p.current.kind ≠ .endOfInput) : p.Affords total level moves .facing :=
  ⟨h.1, h.2.1 (by rw [input_of_current hmore]; exact List.cons_ne_nil _ _)⟩

theorem advance (h : p.Affords total level moves .taken) (hmore : p.More) :
    p.advance.Affords total level (moves + 1) .facing := by
  -- at the end of input the token behind the current one is an end of input too
  have hcurrent : p.current.kind ≠ .endOfInput := fun hend =>
    hmore.elim (absurd hend) (absurd (h.1 0 hend))
  obtain ⟨hlength, hbraces⟩ := ahead_of_current hcurrent
  obtain ⟨hstays, hspare⟩ := h
  refine ⟨hstays.advance, ?_⟩
  rw [input_advance]
  omega

/-- An opening brace is one token less ahead and one block more around the parser. -/
theorem enter (h : p.Affords total level moves .taken) (hopen : p.current.kind = .openCurly) :
    p.advance.Affords total (level + 1) (moves + 1) .between := by
  obtain ⟨hstays, hspare⟩ := h
  have hinput : p.input = p.current :: p.ahead := input_of_current (by rw [hopen]; decide)
  have hbraces : braces (p.current :: p.ahead) = braces p.ahead + 1 :=
    List.countP_cons_of_pos (by simpa)
  rw [hinput, List.length_cons, hbraces] at hspare
  refine ⟨hstays.advance, fun _ => ?_, by omega⟩
  rw [input_advance]
  omega

/-- At the end of input the closing brace is what is taken next. -/
theorem operand_of_block (h : p.Affords total (level + 1) moves .between) :
    p.Affords total level moves .operand := by
  obtain ⟨hstays, hspare, hlast⟩ := h
  refine ⟨hstays, ?_⟩
  by_cases hinput : p.input = []
  · -- nothing is ahead, and the block that is left makes up for the token that was taken already
    rw [hinput]
    simp only [List.length_nil, braces, List.countP_nil]
    omega
  · have := hspare hinput
    omega

end Affords

end Parser

/-! ## With and without the diary -/

section Watching

variable [TokenSource σ]

/-- A parser without and with its diary, which is proper; if a total is given, the tokens to be
taken are within it. -/
structure Watches (limit : Option Nat) (stage : Stage) (level : Nat) (p : Parser σ)
    (q : Parser (Diary σ)) : Prop where
  bare_eq : p = q.bare
  proper : q.Proper
  spare : ∀ total ∈ limit, q.bare.Affords total level q.supply.moves stage

namespace Watches

variable {limit : Option Nat} {stage : Stage} {level : Nat} {p : Parser σ}
  {q : Parser (Diary σ)}

theorem toStage {stage' : Stage} (h : Watches limit stage level p q) (hstage : stage ≠ .between)
    (hstage' : stage' ≠ .between) : Watches limit stage' level p q :=
  ⟨h.bare_eq, h.proper, fun total htotal => (h.spare total htotal).toStage hstage hstage'⟩

theorem next (h : Watches limit .taken level p q) :
    Watches limit .between level p.advance q.advance := by
  obtain ⟨rfl, h, hspare⟩ := h
  exact ⟨rfl, h.advance, fun total htotal => (hspare total htotal).next⟩

theorem advance (h : Watches limit .taken level p q) (hmore : p.More) :
    Watches limit .facing level p.advance q.advance := by
  obtain ⟨rfl, h, hspare⟩ := h
  exact ⟨rfl, h.advance, fun total htotal => (hspare total htotal).advance hmore⟩

theorem write (h : Watches limit stage level p q) (entry : LogEntry) :
    Watches limit stage level (p.write entry) (q.write entry) := by
  obtain ⟨rfl, h, hspare⟩ := h
  exact ⟨rfl, h.write entry, fun total htotal => (hspare total htotal).of_window rfl⟩

theorem leaveNesting (h : Watches limit stage level p q) :
    Watches limit stage level p.leaveNesting q.leaveNesting := by
  obtain ⟨rfl, h, hspare⟩ := h
  exact ⟨rfl, h.leaveNesting, fun total htotal => (hspare total htotal).of_window rfl⟩

theorem record (h : Watches limit stage level p q) (cause : Cause) (position : Position) :
    Watches limit stage level (p.record cause position) (q.record cause position) := by
  obtain ⟨rfl, h, hspare⟩ := h
  exact ⟨rfl, h.record _ _, fun total htotal => (hspare total htotal).of_window rfl⟩

theorem current_eq (h : Watches limit stage level p q) : q.current = p.current := by
  rw [h.bare_eq]
  rfl

theorem peek_eq (h : Watches limit stage level p q) : q.peek = p.peek := by
  rw [h.bare_eq]
  rfl

/-- What may be noted keeps the two side by side. -/
theorem note (h : Watches limit stage level p q) {deed : Deed}
    (hmore : deed ≠ .deeper → p.current.kind ≠ .endOfInput) :
    Watches limit stage level p (q.note deed) := by
  obtain ⟨rfl, h, hspare⟩ := h
  exact ⟨rfl, h.note hmore, hspare⟩

theorem failed (h : Watches limit stage level p q) (hstage : stage ≠ .between) :
    Watches limit .failed level p q :=
  h.toStage hstage (by simp)

theorem integer (h : Watches limit .facing level p q) :
    (integerOperand.run p).Coupled (fun _ => False) (Watches limit .failed level)
      (Watches limit .operand level) Eq (integerOperand.run q) := by
  have hoperand : Watches limit .operand level p q := h.toStage (by simp) (by simp)
  change (integerOperand p).Coupled _ _ _ _ (integerOperand q)
  unfold integerOperand
  rw [h.current_eq]
  cases Text.readInt64? p.current.text.toList with
  | some value => exact .ok rfl hoperand
  | none => exact .ok rfl (hoperand.record _ _)

end Watches

/-- A parser goes side by side with itself under observation. -/
def watching (limit : Option Nat) : Coupling σ (Diary σ) Nat where
  values := .same
  inner level := level + 1
  gone _ := False
  holds := Watches limit
  gone_later h _ := h
  alike := by rintro _ _ q ⟨rfl, h, -⟩; exact ⟨rfl, rfl, h.tables, h.tables⟩
  current_between := by rintro _ _ q ⟨rfl, -⟩; rfl
  current_taken := by rintro _ _ q ⟨rfl, -⟩; rfl
  peek_taken := by rintro _ _ q ⟨rfl, -⟩; exact .inl rfl
  peek_failed := by rintro _ _ q ⟨rfl, -⟩; exact .inl rfl
  operator_peek := by rintro _ _ q ⟨rfl, -⟩ -; rfl
  facing_of_between := by
    rintro _ _ q ⟨rfl, h, hspare⟩ hmore
    exact ⟨rfl, h, fun total htotal => (hspare total htotal).facing hmore⟩
  taken_of_facing h := h.toStage (by simp) (by simp)
  taken_of_operand h := h.toStage (by simp) (by simp)
  operand_of_facing h _ := h.toStage (by simp) (by simp)
  operand_of_block := by
    rintro _ _ q ⟨rfl, h, hspare⟩ -
    exact ⟨rfl, h, fun total htotal => (hspare total htotal).operand_of_block⟩
  advance h hmore := .inr (h.advance hmore)
  next h := .inr h.next
  enter := by
    rintro _ _ q ⟨rfl, h, hspare⟩ hopen
    exact .inr ⟨rfl, h.advance, fun total htotal => (hspare total htotal).enter hopen⟩
  recover h := .inr (h.toStage (by simp) (by simp)).next
  failed_advance h hpeek _ :=
    ((h.toStage (by simp) (by simp)).advance (.inr (by rw [hpeek]; decide))).failed (by simp)
  write entry h := h.write entry
  deeper := by
    rintro _ _ q ⟨rfl, h, hspare⟩ hless
    exact ⟨rfl, h.enterNesting hless, fun total htotal => (hspare total htotal).of_window rfl⟩
  leave_operand h := h.leaveNesting
  leave_failed h := h.leaveNesting
  unexpected h _ _ := by
    rw [h.peek_eq]
    exact (h.failed (by simp)).record _ _
  missing h _ := by
    rw [h.current_eq]
    exact (h.failed (by simp)).record _ _
  tooDeep h := by
    rw [h.current_eq]
    exact (h.failed (by simp)).record _ _
  name := by rintro _ _ q ⟨rfl, -⟩ _; rfl
  sign := by rintro _ _ q ⟨rfl, -⟩ _; rfl
  operator := by rintro _ _ q _ ⟨rfl, -⟩ _; rfl
  integer h _ := h.integer

variable {limit : Option Nat} {level : Nat} {p : Parser σ} {q : Parser (Diary σ)}

section Steps

open Coupling

variable {r : Routines σ} {r' : Routines (Diary σ)} [r.Steady]
  (h : (watching limit).Keeps r r')
include h

theorem watching_operation (precedence : Precedence)
    (hp : (watching limit).holds .facing level p q) :
    (watching limit).Couples level .operand Eq ((r.operation precedence).run p)
      ((r'.watchedOperation precedence).run q) := by
  refine byOperand precedence hp fun hp hrule => ?_
  exact h.operandAndOperators precedence
    (hp.note fun _ hend => by rw [hend] at hrule; cases hrule) hrule

theorem watching_operators (precedence : Precedence) {left left' : Expression}
    (hp : (watching limit).holds .operand level p q) (hleft : left = left') :
    (watching limit).Couples level .operand Eq ((r.operatorsStep precedence left).run p)
      ((r'.watchedOperators precedence left').run q) := by
  refine byOperator precedence hp hleft fun hp hrule => ?_
  refine h.operatorAndOperators precedence (hp.note fun _ hend => ?_) hleft hrule
  rw [hend, (alike_facing hp).tables_left] at hrule
  cases hrule

theorem watching_statements (region : Region) (hp : (watching limit).holds .between level p q) :
    ((r.statementsStep region).run p).Coupled (watching limit).gone (fun _ _ => False)
      (fun p q => (watching limit).holds .between level p q ∧
        region.endsAt p.current.kind = true)
      (List.Forall₂ Eq) ((r'.watchedStatements region).run q) := by
  rw [r.statementsStep_eq]
  refine unlessOver region hp (fun hends => ⟨hp, hends⟩) .nil fun hp hmore => ?_
  exact h.furtherStatements region (hp.note fun _ => hmore)

end Steps

/-- Watched or not, the routines read the same. -/
theorem routines_watched (limit : Option Nat) (fuel : Nat) :
    (watching limit).Keeps (routines fuel : Routines σ) (watched fuel) := by
  induction fuel with
  | zero => constructor <;> intros <;> exact .stuck
  | succ fuel ih =>
    -- only the steps that note something differ from those of the parser
    refine ⟨fun precedence hp => ?_, watching_operators ih, ih.parametersStep, ih.argumentsStep,
      ih.statementStep, watching_statements ih⟩
    refine Coupling.nested hp fun hless => watching_operation ih precedence ?_
    exact ((watching limit).deeper hp hless).note fun hne => absurd rfl hne

/-! ## Whole readings -/

/-- Reads a whole program with routines that are given. -/
def Routines.program (r : Routines σ) : ParserM σ Program := do
  modify (·.write .openedProgram)
  modify (·.write .entered)
  let statements ← r.statements .program
  modify fun parser =>
    parser.write (.event (.parsed statements.length parser.diagnostics.size))
  modify (·.write .left)
  return ⟨statements⟩

theorem Routines.Framed.program {r : Routines σ} (h : r.Framed) : r.program.Framed := by
  have hwrite (entry : Parser σ → LogEntry) :
      (modify fun parser => parser.write (entry parser)).Framed :=
    fun parser => .write parser (entry parser)
  refine (hwrite _).bind fun _ => ?_
  refine (hwrite _).bind fun _ => ?_
  refine (h.statements .program).bind fun statements => ?_
  refine (hwrite _).bind fun _ => ?_
  refine (hwrite _).bind fun _ => ?_
  exact .pure _

theorem run_parseProgram (parser : Parser σ) :
    parseProgram.run parser = (routines parser.steps).program.run parser := rfl

/-- Runs an action under observation, with as many steps as the parser is given. -/
def Parser.watch (parser : Parser σ) (action : Routines (Diary σ) → ParserM (Diary σ) α) :
    Outcome (Diary σ) α :=
  (action (watched parser.steps)).run parser.withDiary

theorem watching_program {limit : Option Nat} {level : Nat} {p : Parser σ} {q : Parser (Diary σ)}
    (hp : Watches limit .between level p q) (fuel : Nat) :
    ((routines fuel).program.run p).Coupled (fun _ => False) (fun _ _ => False)
      (fun p q => Watches limit .between level p q ∧ p.current.kind = .endOfInput) Eq
      ((watched fuel).program.run q) := by
  have hread := (routines_watched limit fuel).statements .program
    (Watches.write (hp.write .openedProgram) .entered)
  unfold Routines.program
  simp only [run_bind, run_modify]
  generalize ((routines fuel : Routines σ).statements .program).run _ = x at hread ⊢
  generalize ((watched fuel : Routines (Diary σ)).statements .program).run _ = y at hread ⊢
  cases hread with
  | @ok read read' after after' hvalue hpost =>
    obtain rfl : read = read' := List.forall₂_eq_eq_eq ▸ hvalue
    obtain ⟨hlast, hends⟩ := hpost
    have hsize : after'.diagnostics.size = after.diagnostics.size := by rw [hlast.bare_eq]; rfl
    simp only [run_pure, hsize]
    exact .ok rfl ⟨Watches.write (Watches.write hlast _) _, Region.endsAt_program.1 hends⟩
  | absent hfalse => exact hfalse.elim
  | gone hfalse => exact hfalse.elim
  | lost hfalse => exact hfalse.elim
  | stuck => exact .stuck

end Watching

end Monkey
