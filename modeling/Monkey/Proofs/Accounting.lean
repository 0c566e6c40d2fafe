import Monkey.Proofs.Input

/-!
# One diagnostic for each dropped statement

A statement that cannot be read is left out, and there is a diagnostic that says why: one for each
call of the statement routine that comes out without a value, and none for the others, except for
integers that are out of range. To speak of calls, the routines are run over a supply that keeps a
journal of them (`journaled`): the routine that reads statements notes each of its calls, with the
calls made inside it (`observe`), and nothing else is different. `ParserM.Accounts` relates an
action over the journal to the action itself. It says that the journal changes nothing, and that
the diagnostics of a run are those of the calls it makes and, if it comes out without a value, one
of its own. Every routine keeps these books (`journaled_accounts`).
-/

namespace Monkey

open ParserM TokenSource

variable {σ α β : Type}

/-! ## Calls -/

/-- A call of the routine that reads a statement: the parser it was made with, the statement it
came out with, the parser it left behind, and the calls that were made inside it. -/
structure Call (σ : Type) where
  start : Parser σ
  value : Option Statement
  finish : Parser σ
  inner : List (Call σ)

mutual

/-- A call and all calls inside it, in the order they were made. -/
def Call.all : Call σ → List (Call σ)
  | ⟨start, value, finish, inner⟩ => ⟨start, value, finish, inner⟩ :: allCalls inner

/-- Several calls and all calls inside them, in the order they were made. -/
def allCalls : List (Call σ) → List (Call σ)
  | [] => []
  | call :: rest => call.all ++ allCalls rest

end

theorem Call.all_eq (call : Call σ) : call.all = call :: allCalls call.inner := by
  cases call
  rw [Call.all]

@[simp] theorem allCalls_nil : allCalls ([] : List (Call σ)) = [] := by
  rw [allCalls]

@[simp] theorem allCalls_cons (call : Call σ) (rest : List (Call σ)) :
    allCalls (call :: rest) = call :: (allCalls call.inner ++ allCalls rest) := by
  rw [allCalls, call.all_eq, List.cons_append]

@[simp] theorem allCalls_append (calls more : List (Call σ)) :
    allCalls (calls ++ more) = allCalls calls ++ allCalls more := by
  induction calls with
  | nil => simp
  | cons call calls ih => simp [ih]

theorem mem_allCalls {calls : List (Call σ)} {call : Call σ} (h : call ∈ calls) :
    call ∈ allCalls calls := by
  obtain ⟨front, back, rfl⟩ := List.append_of_mem h
  simp

/-- Calls with none inside them are all there are. -/
theorem allCalls_eq_self {calls : List (Call σ)} (h : ∀ call ∈ calls, call.inner = []) :
    allCalls calls = calls := by
  induction calls with
  | nil => exact allCalls_nil
  | cons call calls ih =>
    obtain ⟨hcall, hcalls⟩ := List.forall_mem_cons.1 h
    rw [allCalls_cons, hcall, allCalls_nil, List.nil_append, ih hcalls]

/-- Every call has a statement or has none. -/
theorem length_calls (calls : List (Call σ)) :
    calls.length = (calls.filterMap Call.value).length + calls.countP (·.value.isNone) := by
  induction calls with
  | nil => rfl
  | cons call calls ih =>
    cases hvalue : call.value with
    | none => simp [hvalue, ih, Nat.add_assoc]
    | some value => simp [hvalue, ih, Nat.add_right_comm]

/-- A supply that keeps a journal of calls. -/
structure Journal (σ : Type) where
  supply : σ
  calls : List (Call σ)

instance [TokenSource σ] : TokenSource (Journal σ) where
  next journal := ((next journal.supply).1, ⟨(next journal.supply).2, journal.calls⟩)
  remaining journal := remaining journal.supply
  remaining_next_lt journal := remaining_next_lt journal.supply
  remaining_next_of_drained journal := remaining_next_of_drained journal.supply
  kind_next_of_drained journal := kind_next_of_drained journal.supply

namespace Parser

/-- The parser without its journal. -/
def erase (parser : Parser (Journal σ)) : Parser σ :=
  ⟨parser.supply.supply, parser.current, parser.peek, parser.options, parser.tables, parser.depth,
    parser.diagnostics, parser.log⟩

@[simp] theorem erase_current (parser : Parser (Journal σ)) :
    parser.erase.current = parser.current := rfl

@[simp] theorem erase_peek (parser : Parser (Journal σ)) : parser.erase.peek = parser.peek := rfl

@[simp] theorem erase_tables (parser : Parser (Journal σ)) :
    parser.erase.tables = parser.tables := rfl

@[simp] theorem erase_depth (parser : Parser (Journal σ)) :
    parser.erase.depth = parser.depth := rfl

/-- The calls in the journal. -/
def calls (parser : Parser (Journal σ)) : List (Call σ) :=
  parser.supply.calls

/-- The parser with another journal. -/
def withCalls (parser : Parser (Journal σ)) (calls : List (Call σ)) : Parser (Journal σ) :=
  { parser with supply := ⟨parser.supply.supply, calls⟩ }

end Parser

/-- Runs an action that reads a statement with an empty journal, and notes it as one call. -/
def observe (action : ParserM (Journal σ) Statement) : ParserM (Journal σ) Statement :=
  fun parser =>
    match action (parser.withCalls []) with
    | .ok value after =>
      .ok value (after.withCalls
        (parser.calls ++ [⟨parser.erase, some value, after.erase, after.calls⟩]))
    | .absent after =>
      .absent (after.withCalls
        (parser.calls ++ [⟨parser.erase, none, after.erase, after.calls⟩]))
    | .stuck => .stuck

theorem run_observe (action : ParserM (Journal σ) Statement) (parser : Parser (Journal σ)) :
    (observe action).run parser =
      match action.run (parser.withCalls []) with
      | .ok value after =>
        .ok value (after.withCalls
          (parser.calls ++ [⟨parser.erase, some value, after.erase, after.calls⟩]))
      | .absent after =>
        .absent (after.withCalls
          (parser.calls ++ [⟨parser.erase, none, after.erase, after.calls⟩]))
      | .stuck => .stuck := rfl

/-- The routines of the parser with the calls of the statement routine noted. -/
def journaled [TokenSource σ] : Nat → Routines (Journal σ)
  | 0 => .stuck
  | fuel + 1 =>
    { expression := (journaled fuel).expressionStep
      operators := (journaled fuel).operatorsStep
      parameters := (journaled fuel).parametersStep
      arguments := (journaled fuel).argumentsStep
      statement := observe (journaled fuel).statementStep
      statements := (journaled fuel).statementsStep }

/-- The calls for the statements of a program that a parse makes, each with those inside it. -/
def statementCalls [TokenSource σ] (supply : σ) (options : Options) : List (Call σ) :=
  let parser := Parser.ofSupply (⟨supply, []⟩ : Journal σ) options
  match ((journaled parser.steps).statements .program).run
      ((parser.write .openedProgram).write .entered) with
  | .ok _ after => after.calls
  | .absent after => after.calls
  | .stuck => []

/-! ## Counting -/

/-- Whether something is wrong that leaves a statement out: anything but an integer that is out of
range, which counts as zero. -/
def Diagnostic.isFatal (diagnostic : Diagnostic) : Bool :=
  match diagnostic.cause with
  | .integerOutOfRange _ => false
  | _ => true

/-- The kind of token that a statement was announced with. -/
def LogEntry.statementKind? : LogEntry → Option TokenKind
  | .event (.statement kind) => some kind
  | _ => none

theorem LogEntry.statementKind?_eq_none {event : Event} (h : ∀ kind, event ≠ .statement kind) :
    (LogEntry.event event).statementKind? = none := by
  cases event with
  | statement kind => exact absurd rfl (h kind)
  | _ => rfl

namespace Parser

/-- The number of diagnostics that leave statements out. -/
def fatal (parser : Parser σ) : Nat :=
  parser.count Diagnostic.isFatal

/-- The kinds of token that statements were announced with. -/
def statementKinds (parser : Parser σ) : List TokenKind :=
  parser.log.toList.filterMap LogEntry.statementKind?

theorem fatal_record (parser : Parser σ) (cause : Cause) (position : Position) :
    (parser.record cause position).fatal =
      parser.fatal + if Diagnostic.isFatal ⟨cause, position⟩ then 1 else 0 :=
  parser.count_record Diagnostic.isFatal cause position

theorem statementKinds_write (parser : Parser σ) (entry : LogEntry) :
    (parser.write entry).statementKinds = parser.statementKinds ++ entry.statementKind?.toList := by
  cases h : entry.statementKind? <;> simp [statementKinds, write, h]

theorem statementKinds_record (parser : Parser σ) (cause : Cause) (position : Position) :
    (parser.record cause position).statementKinds = parser.statementKinds := by
  simp [statementKinds, record, LogEntry.statementKind?]

variable [TokenSource σ]

/-- No token of a kind is current or comes later. -/
def Lacks (parser : Parser σ) (kind : TokenKind) : Prop :=
  ∀ count, (parser.skip count).current.kind ≠ kind

/-- A parser that another comes after, on whatever level of nesting. -/
structure Precedes (before after : Parser σ) : Prop where
  window : ∃ count, after.window = (before.skip count).window
  diagnostics : before.diagnostics.toList <+: after.diagnostics.toList

theorem Follows.precedes {before after : Parser σ} (h : before.Follows after) :
    before.Precedes after :=
  ⟨h.window, h.diagnostics⟩

theorem Precedes.trans {a b c : Parser σ} (hab : a.Precedes b) (hbc : b.Precedes c) :
    a.Precedes c := by
  obtain ⟨m, hm⟩ := hab.window
  obtain ⟨n, hn⟩ := hbc.window
  refine ⟨⟨m + n, ?_⟩, hab.diagnostics.trans hbc.diagnostics⟩
  rw [hn, window_skip hm, skip_skip]

theorem Precedes.lacks {before after : Parser σ} (h : before.Precedes after) {kind : TokenKind}
    (hlacks : before.Lacks kind) : after.Lacks kind := by
  obtain ⟨count, hcount⟩ := h.window
  intro more
  have hwindow := window_skip hcount more
  rw [skip_skip] at hwindow
  rw [show (after.skip more).current = _ from congrArg Prod.fst hwindow]
  exact hlacks (count + more)

end Parser

/-- Entering a level of nesting moves nothing. -/
theorem Parser.precedes_deeper [TokenSource σ] (parser : Parser (Journal σ)) :
    parser.erase.Precedes (Parser.erase { parser with depth := parser.depth + 1 }) :=
  ⟨⟨0, rfl⟩, List.prefix_rfl⟩

namespace Call

/-- What was recorded in the course of a call. -/
def recorded (call : Call σ) : List Diagnostic :=
  call.finish.diagnostics.toList.drop call.start.diagnostics.size

/-- The number of diagnostics that leave statements out and were recorded in the course of a
call. -/
def fatal (call : Call σ) : Nat :=
  call.recorded.countP Diagnostic.isFatal

end Call

/-- The number of diagnostics that leave statements out and were recorded in the course of several
calls. -/
def fatalEach : List (Call σ) → Nat
  | [] => 0
  | call :: rest => call.fatal + fatalEach rest

@[simp] theorem fatalEach_nil : fatalEach ([] : List (Call σ)) = 0 := rfl

@[simp] theorem fatalEach_cons (call : Call σ) (rest : List (Call σ)) :
    fatalEach (call :: rest) = call.fatal + fatalEach rest := rfl

theorem fatalEach_append (calls more : List (Call σ)) :
    fatalEach (calls ++ more) = fatalEach calls + fatalEach more := by
  induction calls with
  | nil => simp
  | cons call calls ih => simp [ih, Nat.add_assoc]

namespace Call

/-- How a call came out. -/
def outcome (call : Call σ) : Outcome σ Statement :=
  match call.value with
  | some value => .ok value call.finish
  | none => .absent call.finish

/-- A call with its books in order: it is a run of the statement routine that takes back none of
the earlier diagnostics, and beside what the calls inside it recorded there is one diagnostic if it
came out without a statement, and none if it has one, integers out of range left aside. There are
calls inside it only if an opening brace is ahead. -/
structure Sound [TokenSource σ] (call : Call σ) : Prop where
  run : ∃ fuel, (routines fuel).statement.run call.start = call.outcome
  precedes : call.start.Precedes call.finish
  fatal : call.fatal =
    fatalEach call.inner + if call.value.isNone then 1 else 0
  inner : call.start.Lacks .openCurly → call.inner = []

theorem fatal_finish [TokenSource σ] (call : Call σ) (h : call.start.Precedes call.finish) :
    call.finish.fatal = call.start.fatal + call.fatal := by
  obtain ⟨more, hmore⟩ := h.diagnostics
  rw [fatal, recorded, Parser.fatal, Parser.fatal, Parser.count, Parser.count, ← hmore,
    ← Array.length_toList, List.drop_left, List.countP_append]

end Call

mutual

/-- Of calls with their books in order, as many came out without a statement as there are
diagnostics that leave one out. -/
theorem Call.countP_all [TokenSource σ] : (call : Call σ) → (∀ c ∈ call.all, c.Sound) →
    call.all.countP (·.value.isNone) = call.fatal
  | ⟨start, value, finish, inner⟩, h => by
    rw [Call.all] at h ⊢
    obtain ⟨hself, hinner⟩ := List.forall_mem_cons.1 h
    rw [hself.fatal, List.countP_cons, countP_allCalls inner hinner]

theorem countP_allCalls [TokenSource σ] : (calls : List (Call σ)) →
    (∀ c ∈ allCalls calls, c.Sound) → (allCalls calls).countP (·.value.isNone) =
      fatalEach calls
  | [], _ => by simp
  | call :: rest, h => by
    rw [allCalls] at h ⊢
    obtain ⟨hcall, hrest⟩ := List.forall_mem_append.1 h
    rw [List.countP_append, call.countP_all hcall, countP_allCalls rest hrest, fatalEach_cons]

end

/-! ## Books -/

variable [TokenSource σ]

/-- What a stretch of a run adds to the journal, to the diagnostics and to the log: the diagnostics
are those of its calls and a number of its own, and all the statements that were announced are those
of the calls. -/
structure Books (before after : Parser (Journal σ)) (own : Nat) (calls : List (Call σ)) :
    Prop where
  follows : before.erase.Follows after.erase
  calls_eq : after.calls = before.calls ++ calls
  sound : ∀ c ∈ allCalls calls,
    c.Sound ∧ before.erase.Precedes c.start ∧ c.finish.Precedes after.erase
  fatal : after.fatal = before.fatal + fatalEach calls + own
  kinds : after.statementKinds =
    before.statementKinds ++ (allCalls calls).map (·.start.current.kind)

namespace Books

variable {before mid after : Parser (Journal σ)}

/-- A stretch without calls. -/
theorem of_none {own : Nat} (hfollows : before.erase.Follows after.erase)
    (hcalls : after.calls = before.calls) (hfatal : after.fatal = before.fatal + own)
    (hkinds : after.statementKinds = before.statementKinds) : Books before after own [] :=
  ⟨hfollows, by rw [hcalls, List.append_nil], by simp, by simp [hfatal], by simp [hkinds]⟩

theorem refl (parser : Parser (Journal σ)) : Books parser parser 0 [] :=
  .of_none (.refl _) rfl rfl rfl

theorem advance (parser : Parser (Journal σ)) : Books parser parser.advance 0 [] :=
  .of_none (.advance _) rfl rfl rfl

theorem write (parser : Parser (Journal σ)) {entry : LogEntry} (h : entry.statementKind? = none) :
    Books parser (parser.write entry) 0 [] :=
  .of_none (.write _ entry) rfl rfl (by simp [Parser.statementKinds_write, h])

theorem record (parser : Parser (Journal σ)) (cause : Cause) (position : Position) :
    Books parser (parser.record cause position)
      (if Diagnostic.isFatal ⟨cause, position⟩ then 1 else 0) [] :=
  .of_none (.record _ cause position) rfl (parser.fatal_record cause position)
    (parser.statementKinds_record cause position)

theorem trans {i j : Nat} {calls more : List (Call σ)} (h : Books before mid i calls)
    (h' : Books mid after j more) : Books before after (i + j) (calls ++ more) := by
  refine ⟨h.follows.trans h'.follows, ?_, ?_, ?_, ?_⟩
  · rw [h'.calls_eq, h.calls_eq, List.append_assoc]
  · rw [allCalls_append]
    refine List.forall_mem_append.2 ⟨fun c hmem => ?_, fun c hmem => ?_⟩
    · obtain ⟨hsound, hstart, hfinish⟩ := h.sound c hmem
      exact ⟨hsound, hstart, hfinish.trans h'.follows.precedes⟩
    · obtain ⟨hsound, hstart, hfinish⟩ := h'.sound c hmem
      exact ⟨hsound, h.follows.precedes.trans hstart, hfinish⟩
  · rw [h'.fatal, h.fatal, fatalEach_append]
    omega
  · rw [h'.kinds, h.kinds, allCalls_append, List.map_append, List.append_assoc]

/-- What is read one level of nesting further in is accounted for alike. -/
theorem leaveNesting {own : Nat} {calls : List (Call σ)}
    (h : Books { before with depth := before.depth + 1 } after own calls) :
    Books before after.leaveNesting own calls := by
  have hfollows : before.erase.Follows after.erase.leaveNesting := h.follows.leaveNesting
  refine ⟨hfollows, h.calls_eq, fun c hmem => ?_, h.fatal, h.kinds⟩
  obtain ⟨hsound, hstart, hfinish⟩ := h.sound c hmem
  exact ⟨hsound, before.precedes_deeper.trans hstart, hfinish.trans ⟨⟨0, rfl⟩, List.prefix_rfl⟩⟩

end Books

/-- An outcome over the journal is that of the parser without it, and its books are in order: one
that has no value has so many diagnostics of its own. -/
inductive Outcome.Accounts (own : Nat) (Q : Option α → List (Call σ) → Prop)
    (before : Parser (Journal σ)) : Outcome (Journal σ) α → Outcome σ α → Prop where
  | ok {value : α} {after : Parser (Journal σ)} {calls : List (Call σ)} :
    Books before after 0 calls → Q (some value) calls →
    Accounts own Q before (.ok value after) (.ok value after.erase)
  | absent {after : Parser (Journal σ)} {calls : List (Call σ)} :
    Books before after own calls → Q none calls →
    Accounts own Q before (.absent after) (.absent after.erase)
  | stuck : Accounts own Q before .stuck .stuck

theorem Outcome.Accounts.prepend {own : Nat} {Q Q' : Option α → List (Call σ) → Prop}
    {before mid : Parser (Journal σ)} {calls : List (Call σ)} {x : Outcome (Journal σ) α}
    {y : Outcome σ α} (hbooks : Books before mid 0 calls) (h : x.Accounts own Q mid y)
    (hQ : ∀ value more, Q value more → Q' value (calls ++ more)) :
    x.Accounts own Q' before y := by
  cases h with
  | ok hmore hvalue => exact .ok (hbooks.trans hmore) (hQ _ _ hvalue)
  | absent hmore hvalue =>
    refine .absent ?_ (hQ _ _ hvalue)
    rw [← Nat.zero_add own]
    exact hbooks.trans hmore
  | stuck => exact .stuck

/-- The rules for statements are those of the language. -/
def Parser.Usual (parser : Parser (Journal σ)) : Prop :=
  parser.tables.statement? = Tables.standardStatement?

theorem Books.usual {before after : Parser (Journal σ)} {own : Nat} {calls : List (Call σ)}
    (h : Books before after own calls) (husual : before.Usual) : after.Usual := by
  have htables : after.tables = before.tables := h.follows.tables
  rwa [Parser.Usual, htables]

/-- Without an opening brace ahead there are no calls. -/
def Quiet (before : Parser (Journal σ)) (_ : Option α) (calls : List (Call σ)) : Prop :=
  before.erase.Lacks .openCurly → calls = []

/-- An action of a part of a statement: without a value it has one diagnostic of its own, and it
calls for statements only within braces. -/
def ParserM.Accounts (a : ParserM (Journal σ) α) (b : ParserM σ α) : Prop :=
  ∀ before : Parser (Journal σ), before.Usual →
    (a.run before).Accounts 1 (Quiet before) before (b.run before.erase)

namespace ParserM.Accounts

theorem pure (value : α) :
    (Pure.pure value : ParserM (Journal σ) α).Accounts (Pure.pure value) :=
  fun before _ => .ok (.refl before) fun _ => rfl

theorem get {f : Parser (Journal σ) → ParserM (Journal σ) α} {g : Parser σ → ParserM σ α}
    (h : ∀ parser : Parser (Journal σ), parser.Usual → (f parser).Accounts (g parser.erase)) :
    (ParserM.get >>= f).Accounts (ParserM.get >>= g) :=
  fun before husual => h before husual before husual

theorem peekIs (kind : TokenKind) :
    (ParserM.peekIs kind : ParserM (Journal σ) Bool).Accounts (ParserM.peekIs kind) :=
  fun before _ => .ok (.refl before) fun _ => rfl

theorem advance : (ParserM.advance : ParserM (Journal σ) Unit).Accounts ParserM.advance :=
  fun before _ => .ok (.advance before) fun _ => rfl

theorem announce {event : Event} (h : (LogEntry.event event).statementKind? = none) :
    (ParserM.announce event : ParserM (Journal σ) Unit).Accounts (ParserM.announce event) :=
  fun before _ => .ok (.write before h) fun _ => rfl

theorem fail {cause : Cause} (h : ∀ position, Diagnostic.isFatal ⟨cause, position⟩ = true) :
    (ParserM.fail cause : ParserM (Journal σ) α).Accounts (ParserM.fail cause) := by
  intro before _
  have hbooks := Books.record before cause before.current.span.start
  rw [if_pos (h _)] at hbooks
  exact .absent hbooks fun _ => rfl

theorem expect (kind : TokenKind) :
    (ParserM.expect kind : ParserM (Journal σ) Unit).Accounts (ParserM.expect kind) := by
  intro before _
  rw [run_expect, run_expect, Parser.erase_peek]
  split
  next => exact .ok (.advance before) fun _ => rfl
  next => exact .absent (.record before _ _) fun _ => rfl

theorem bind {a : ParserM (Journal σ) α} {b : ParserM σ α} {f : α → ParserM (Journal σ) β}
    {g : α → ParserM σ β} (h : a.Accounts b) (hnext : ∀ value, (f value).Accounts (g value)) :
    (a >>= f).Accounts (b >>= g) := by
  intro before husual
  have hrun := h before husual
  rw [run_bind, run_bind]
  generalize a.run before = x at hrun ⊢
  generalize b.run before.erase = y at hrun ⊢
  cases hrun with
  | ok hbooks hquiet =>
    refine .prepend hbooks (hnext _ _ (hbooks.usual husual)) fun _ more hmore hlacks => ?_
    rw [hquiet hlacks, hmore (hbooks.follows.precedes.lacks hlacks), List.append_nil]
  | absent hbooks hquiet => exact .absent hbooks hquiet
  | stuck => exact .stuck

theorem nested {a : ParserM (Journal σ) α} {b : ParserM σ α} (h : a.Accounts b) :
    (ParserM.nested a).Accounts (ParserM.nested b) := by
  intro before husual
  rw [run_nested, run_nested, Parser.erase_depth]
  split
  next =>
    let deeper := { before with depth := before.depth + 1 }
    have hrun : (a.run deeper).Accounts 1 (Quiet deeper) deeper
        (b.run { before.erase with depth := before.depth + 1 }) := h deeper husual
    generalize a.run _ = x at hrun ⊢
    generalize b.run _ = y at hrun ⊢
    cases hrun with
    | ok hbooks hquiet =>
      exact .ok hbooks.leaveNesting fun hlacks => hquiet (before.precedes_deeper.lacks hlacks)
    | absent hbooks hquiet =>
      exact .absent hbooks.leaveNesting fun hlacks => hquiet (before.precedes_deeper.lacks hlacks)
    | stuck => exact .stuck
  next => exact .absent (.record before _ _) fun _ => rfl

theorem ite {c : Prop} [Decidable c] {a a' : ParserM (Journal σ) α} {b b' : ParserM σ α}
    (h : a.Accounts b) (h' : a'.Accounts b') :
    (if c then a else a').Accounts (if c then b else b') := by
  split
  next => exact h
  next => exact h'

end ParserM.Accounts

theorem accounts_integerOperand :
    (integerOperand : ParserM (Journal σ) Expression).Accounts integerOperand := by
  intro before _
  change (integerOperand before).Accounts 1 _ before (integerOperand before.erase)
  unfold integerOperand
  rw [Parser.erase_current]
  split
  next => exact .ok (.refl before) fun _ => rfl
  next => exact .ok (.record before _ _) fun _ => rfl

/-- Ending a statement that has its value. -/
theorem accounts_finishStatement (value : Expression) :
    (finishStatement (some value) : ParserM (Journal σ) Expression).Accounts
      (finishStatement (some value)) := by
  refine .bind (.peekIs .semicolon) fun there => .ite ?_ ?_
  · exact .bind .advance fun _ => .pure value
  · refine .bind (.pure value) fun value => .get fun _ _ => .ite (.pure value) ?_
    exact .bind (.expect .semicolon) fun _ => .pure value

/-- A value that could not be read has its diagnostic already when the end of the statement is
looked for. -/
theorem accounts_statementValue {a : ParserM (Journal σ) Expression} {b : ParserM σ Expression}
    (h : a.Accounts b) :
    (ParserM.attempt a >>= finishStatement).Accounts (ParserM.attempt b >>= finishStatement) := by
  intro before husual
  have hrun := h before husual
  rw [run_bind, run_bind, run_attempt, run_attempt]
  generalize a.run before = x at hrun ⊢
  generalize b.run before.erase = y at hrun ⊢
  cases hrun with
  | ok hbooks hquiet =>
    refine .prepend hbooks (accounts_finishStatement _ _ (hbooks.usual husual)) ?_
    intro _ more hmore hlacks
    rw [hquiet hlacks, hmore (hbooks.follows.precedes.lacks hlacks), List.append_nil]
  | @absent after calls hbooks hquiet =>
    change ((finishStatement none).run after).Accounts 1 _ before
      ((finishStatement none).run after.erase)
    rw [run_finishStatement_none, run_finishStatement_none, Parser.erase_peek]
    by_cases hsemicolon : after.peek.kind = .semicolon
    · rw [if_pos hsemicolon, if_pos hsemicolon]
      have hend : Books before after.advance 1 (calls ++ []) := hbooks.trans (.advance after)
      rw [List.append_nil] at hend
      exact .absent hend hquiet
    · rw [if_neg hsemicolon, if_neg hsemicolon]
      exact .absent hbooks hquiet
  | stuck => exact .stuck

/-! ## Routines -/

/-- Keeping books by rules for single actions, of an action over the journal and the action
itself. -/
def accountingRules (σ : Type) [TokenSource σ] : ActionRules (Journal σ) σ Unit where
  values := .same
  inner := id
  Relates _ _ _ a b := a.Accounts b
  stuck _ _ := .stuck
  pure h := h ▸ .pure _
  bind _ h hnext := h.bind fun _ => hnext (j := ()) rfl
  get h := .get fun before _ => h before before.erase ⟨rfl, rfl, rfl⟩
  announce hevent h := .bind (.announce (LogEntry.statementKind?_eq_none hevent)) fun _ => h
  advance h := .bind .advance fun _ => h
  expect _ h := .bind (.expect _) fun _ => h
  missing _ := .fail fun _ => rfl
  ite h h' := h.ite h'
  nested h := h.nested
  integer := accounts_integerOperand
  statementValue h := accounts_statementValue h
  ofValue h hvalue := h.bind fun _ => by rw [hvalue (j := ()) rfl]; exact .pure _

/-- Keeping books, as a congruence. -/
def accounting (σ : Type) [TokenSource σ] : Congruence (Journal σ) σ Unit :=
  (accountingRules σ).congruence

/-- A run of the statement routine is one call. -/
def IsCall (value : Option Statement) (calls : List (Call σ)) : Prop :=
  ∃ call, calls = [call] ∧ call.value = value

/-- Statements that were read are those that calls came out with. -/
def AreValues (value : Option (List Statement)) (calls : List (Call σ)) : Prop :=
  ∀ statements ∈ value, statements = calls.filterMap Call.value

/-- Routines over the journal that keep their books, beside the routines without it. The calls are
made where statements are read, so what is said of these is more than that they keep books. -/
structure Routines.Accounts (fuel : Nat) (r : Routines (Journal σ)) (r' : Routines σ) : Prop
    extends (accounting σ).Reads fuel r r' where
  statement (before : Parser (Journal σ)) : before.Usual →
    (r.statement.run before).Accounts 0 IsCall before (r'.statement.run before.erase)
  statements (region : Region) (before : Parser (Journal σ)) : before.Usual →
    ((r.statements region).run before).Accounts 1 AreValues before
      ((r'.statements region).run before.erase)

/-- The calls for the statements of a block are made behind its opening brace. -/
theorem accounts_braces {r : Routines (Journal σ)} {r' : Routines σ}
    (h : ∀ before : Parser (Journal σ), before.Usual →
      ((r.statements .block).run before).Accounts 1 AreValues before
        ((r'.statements .block).run before.erase)) :
    (ParserM.expect .openCurly >>= fun _ => r.block).Accounts
      (ParserM.expect .openCurly >>= fun _ => r'.block) := by
  intro before husual
  rw [run_bind, run_bind, run_expect, run_expect, Parser.erase_peek]
  by_cases hcurly : before.peek.kind = .openCurly
  · rw [if_pos hcurly, if_pos hcurly]
    have hahead : ¬before.erase.Lacks .openCurly := fun hlacks => hlacks 1 hcurly
    let start := (before.advance.write (.event .block)).advance
    have hstart : Books before start 0 [] :=
      ((Books.advance before).trans (.write _ rfl)).trans (.advance _)
    exact .prepend hstart (h start (hstart.usual husual)) fun _ _ _ hlacks => absurd hlacks hahead
  · rw [if_neg hcurly, if_neg hcurly]
    exact .absent (.record before _ _) fun _ => rfl

/-- What is read from a token that starts a statement, by the rules of the language. -/
theorem accounts_statementRule {fuel : Nat} {r : Routines (Journal σ)} {r' : Routines σ}
    (h : (accounting σ).Reads fuel r r') (kind : TokenKind) :
    (match Tables.standardStatement? kind with
      | some rule => r.statementBy rule
      | none => r.expressionStatement).Accounts
    (match Tables.standardStatement? kind with
      | some rule => r'.statementBy rule
      | none => r'.expressionStatement) := by
  have hrule : Tables.standardStatement? kind = none ∨
      Tables.standardStatement? kind = some .letBinding ∨
      Tables.standardStatement? kind = some .returning := by
    unfold Tables.standardStatement?
    split <;> simp
  have hn {extra unread : Nat} : (accounting σ).Affords fuel extra unread :=
    (accountingRules σ).affords
  rcases hrule with hrule | hrule | hrule
  · rw [hrule]
    exact h.expressionStatement (n := 0) (i := ()) hn
  · rw [hrule]
    exact h.letBinding (n := 0) (i := ()) hn
  · rw [hrule]
    exact h.returning (n := 0) (i := ()) hn

/-- A run of the statement routine, from its announcement on, is noted as one call. -/
theorem Books.noted {before after : Parser (Journal σ)} {value : Option Statement}
    {calls : List (Call σ)}
    (h : Books ((before.withCalls []).write (.event (.statement before.current.kind))) after
      (if value.isNone then 1 else 0) calls)
    (hquiet : before.erase.Lacks .openCurly → calls = [])
    (hrun : ∃ fuel, (routines fuel).statement.run before.erase =
      Call.outcome ⟨before.erase, value, after.erase, after.calls⟩) :
    Books before
      (after.withCalls (before.calls ++ [⟨before.erase, value, after.erase, after.calls⟩])) 0
      [⟨before.erase, value, after.erase, after.calls⟩] := by
  obtain rfl : after.calls = calls := h.calls_eq
  let call : Call σ := ⟨before.erase, value, after.erase, after.calls⟩
  have hstart : before.erase.Precedes
      (before.erase.write (.event (.statement before.current.kind))) :=
    (Parser.Follows.write _ _).precedes
  have hfollows : before.erase.Follows after.erase := (Parser.Follows.write _ _).trans h.follows
  have hfatal : after.fatal = before.fatal + fatalEach after.calls +
    if value.isNone then 1 else 0 := h.fatal
  have hfinish : after.fatal = before.fatal + call.fatal := call.fatal_finish hfollows.precedes
  have hsound : call.Sound := by
    refine ⟨hrun, hfollows.precedes, ?_, hquiet⟩
    change call.fatal = fatalEach after.calls + if value.isNone then 1 else 0
    omega
  refine ⟨hfollows, rfl, ?_, ?_, ?_⟩
  · rw [allCalls_cons, allCalls_nil, List.append_nil]
    have hself : call.Sound ∧ before.erase.Precedes before.erase ∧
        after.erase.Precedes after.erase :=
      ⟨hsound, (Parser.Follows.refl _).precedes, (Parser.Follows.refl _).precedes⟩
    refine List.forall_mem_cons.2 ⟨hself, fun c hmem => ?_⟩
    obtain ⟨hc, hbefore, hafter⟩ := h.sound c hmem
    exact ⟨hc, hstart.trans hbefore, hafter⟩
  · rw [fatalEach_cons, fatalEach_nil]
    exact hfinish
  · have hkinds := h.kinds
    rw [Parser.statementKinds_write] at hkinds
    rw [allCalls_cons, allCalls_nil, List.append_nil, List.map_cons]
    exact hkinds.trans (List.append_assoc _ _ _)

/-- By the rules of the language a statement is announced and then read by its first token. -/
theorem run_statementStep (r : Routines σ) (parser : Parser σ)
    (h : parser.tables.statement? = Tables.standardStatement?) :
    r.statementStep.run parser =
      (match Tables.standardStatement? parser.current.kind with
        | some rule => r.statementBy rule
        | none => r.expressionStatement).run
      (parser.write (.event (.statement parser.current.kind))) := by
  rw [← h]
  rfl

namespace Routines.Accounts

variable {fuel : Nat} {r : Routines (Journal σ)} {r' : Routines σ}

/-- Each run of the statement routine is one call, and its diagnostics are those of the call. -/
theorem statementStep (h : Routines.Accounts fuel r (routines fuel)) (before : Parser (Journal σ))
    (husual : before.Usual) :
    ((observe r.statementStep).run before).Accounts 0 IsCall before
      ((routines fuel).statementStep.run before.erase) := by
  let start := (before.withCalls []).write (.event (.statement before.current.kind))
  have hrule : (r.statementStep.run (before.withCalls [])).Accounts 1 (Quiet start) start
      ((routines fuel).statementStep.run before.erase) := by
    rw [run_statementStep r (before.withCalls []) husual, run_statementStep _ before.erase husual]
    exact accounts_statementRule h.toReads before.current.kind start husual
  have hstart : before.erase.Precedes start.erase := (Parser.Follows.write _ _).precedes
  rw [run_observe]
  generalize r.statementStep.run _ = x at hrule ⊢
  generalize hrun : (routines fuel).statementStep.run before.erase = y at hrule ⊢
  cases hrule with
  | ok hbooks hquiet =>
    exact .ok (hbooks.noted (fun hlacks => hquiet (hstart.lacks hlacks)) ⟨fuel + 1, hrun⟩)
      ⟨_, rfl, rfl⟩
  | absent hbooks hquiet =>
    exact .absent (hbooks.noted (fun hlacks => hquiet (hstart.lacks hlacks)) ⟨fuel + 1, hrun⟩)
      ⟨_, rfl, rfl⟩
  | stuck => exact .stuck

/-- Behind a call, the further statements of a region have their calls. -/
theorem further (h : Routines.Accounts fuel r r') (region : Region)
    {before mid : Parser (Journal σ)} (husual : before.Usual) {call : Call σ}
    (hbooks : Books before mid 0 [call]) :
    ((advance >>= fun _ => r.statements region >>= fun rest =>
        Pure.pure (call.value.toList ++ rest)).run mid).Accounts 1 AreValues before
      ((advance >>= fun _ => r'.statements region >>= fun rest =>
        Pure.pure (call.value.toList ++ rest)).run mid.erase) := by
  have hnext : Books before mid.advance 0 [call] := hbooks.trans (.advance mid)
  have hrun := h.statements region mid.advance (hnext.usual husual)
  change ((r.statements region >>= fun rest =>
      Pure.pure (call.value.toList ++ rest)).run mid.advance).Accounts 1 AreValues before
    ((r'.statements region >>= fun rest =>
      Pure.pure (call.value.toList ++ rest)).run mid.advance.erase)
  rw [run_bind, run_bind]
  generalize (r.statements region).run mid.advance = x at hrun ⊢
  generalize (r'.statements region).run mid.advance.erase = y at hrun ⊢
  cases hrun with
  | ok hrest hvalues =>
    refine .ok (hnext.trans hrest) fun _ hmem => ?_
    cases hmem
    rw [hvalues _ rfl]
    cases hvalue : call.value <;> simp [hvalue]
  | absent hrest _ => exact .absent (hnext.trans hrest) nofun
  | stuck => exact .stuck

theorem statementsStep (h : Routines.Accounts fuel r r') (region : Region)
    (before : Parser (Journal σ)) (husual : before.Usual) :
    ((r.statementsStep region).run before).Accounts 1 AreValues before
      ((r'.statementsStep region).run before.erase) := by
  unfold Routines.statementsStep
  rw [run_bind, run_bind, run_current, run_current, Parser.erase_current]
  by_cases hend : region.endsAt before.current.kind = true
  · simp only [hend, if_true]
    refine .ok (.refl before) fun _ hmem => ?_
    cases hmem
    rfl
  · simp only [hend]
    have hrun := h.statement before husual
    rw [if_neg Bool.false_ne_true, if_neg Bool.false_ne_true, run_bind, run_bind, run_attempt,
      run_attempt]
    generalize r.statement.run before = x at hrun ⊢
    generalize r'.statement.run before.erase = y at hrun ⊢
    cases hrun with
    | ok hbooks hcall =>
      obtain ⟨call, rfl, hvalue⟩ := hcall
      simp only [← hvalue]
      exact h.further region husual hbooks
    | absent hbooks hcall =>
      obtain ⟨call, rfl, hvalue⟩ := hcall
      simp only [← hvalue]
      exact h.further region husual hbooks
    | stuck => exact .stuck

end Routines.Accounts

/-- Every routine keeps its books, with any number of steps. -/
theorem journaled_accounts (fuel : Nat) :
    Routines.Accounts fuel (journaled fuel : Routines (Journal σ)) (routines fuel) := by
  induction fuel with
  | zero =>
    exact
      { expression := fun _ _ _ _ => .stuck
        operators := fun _ _ _ _ _ _ _ => .stuck
        parameters := fun _ _ _ => .stuck
        arguments := fun _ _ _ => .stuck
        braces := fun _ => accounts_braces fun _ _ => .stuck
        statement := fun _ _ => .stuck
        statements := fun _ _ _ => .stuck }
  | succ fuel ih =>
    exact
      { expression := fun limit hn => ih.expressionStep hn limit
        operators := fun limit _ _ hleft hn => ih.operatorsStep hn hleft limit
        parameters := fun hn => ih.parametersStep hn.step
        arguments := fun hn => ih.argumentsStep hn.step
        braces := fun _ => accounts_braces (ih.statementsStep .block)
        statement := ih.statementStep
        statements := ih.statementsStep }

/-! ## Parsing -/

/-- The log of a parse is that of reading all statements, and two entries more. -/
theorem log_of_statements {supply : σ} {options : Options} {statements : List Statement}
    {after : Parser σ}
    (h : ((routines (Parser.ofSupply supply options).steps).statements .program).run
      (((Parser.ofSupply supply options).write .openedProgram).write .entered) =
        .ok statements after) :
    (parse supply options).log = after.log.toList ++
      [.event (.parsed statements.length after.diagnostics.size), .left] := by
  let started := ((Parser.ofSupply supply options).write .openedProgram).write .entered
  have hstarted : ((routines started.steps).statements .program).run started =
    .ok statements after := h
  have hrun : parseProgram.run (Parser.ofSupply supply options) = .ok ⟨statements⟩
      ((after.write (.event (.parsed statements.length after.diagnostics.size))).write .left) := by
    change (withRoutines (fun r => r.statements .program) >>= fun statements => do
      modify fun parser =>
        parser.write (.event (.parsed statements.length parser.diagnostics.size))
      modify (·.write .left)
      return (⟨statements⟩ : Program)).run started = _
    rw [run_bind, run_withRoutines, hstarted]
    rfl
  rw [parse_eq_of_run hrun]
  simp [Parser.write]

/-- The books of a whole parse. -/
theorem books_of_parse (supply : σ) (options : Options) :
    ∃ after : Parser (Journal σ),
      Books (((Parser.ofSupply (⟨supply, []⟩ : Journal σ) options).write .openedProgram).write
        .entered) after 0 (statementCalls supply options) ∧
      (parse supply options).program.statements =
        (statementCalls supply options).filterMap Call.value ∧
      (parse supply options).diagnostics = after.diagnostics.toList ∧
      (parse supply options).log.filterMap LogEntry.statementKind? = after.statementKinds := by
  obtain ⟨statements, last, hrun, hprogram, hdiagnostics⟩ := parse_eq_of_statements supply options
  let started := ((Parser.ofSupply (⟨supply, []⟩ : Journal σ) options).write .openedProgram).write
    .entered
  have haccounts := (journaled_accounts (Parser.ofSupply supply options).steps).statements .program
    started rfl
  have hlog := log_of_statements hrun
  have herase : started.erase =
    ((Parser.ofSupply supply options).write .openedProgram).write .entered := rfl
  rw [herase, hrun] at haccounts
  have hcalls : statementCalls supply options =
    match ((journaled (Parser.ofSupply supply options).steps).statements .program).run started with
    | .ok _ after => after.calls
    | .absent after => after.calls
    | .stuck => [] := rfl
  generalize ((journaled (Parser.ofSupply supply options).steps).statements .program).run started =
    x at haccounts hcalls
  generalize hy : Outcome.ok statements last = y at haccounts
  cases haccounts with
  | @ok value after calls hbooks hvalues =>
    cases hy
    have hsame : statementCalls supply options = calls := hcalls.trans hbooks.calls_eq
    refine ⟨after, hsame ▸ hbooks, ?_, hdiagnostics, ?_⟩
    · rw [hprogram, hsame]
      exact hvalues _ rfl
    · rw [hlog, List.filterMap_append]
      exact List.append_nil _
  | absent _ _ => cases hy
  | stuck => cases hy

theorem countP_isFatal_of_parse (supply : σ) (options : Options) :
    (parse supply options).diagnostics.countP Diagnostic.isFatal =
      (allCalls (statementCalls supply options)).countP (·.value.isNone) := by
  obtain ⟨after, hbooks, -, hdiagnostics, -⟩ := books_of_parse supply options
  have hfatal : after.fatal = 0 + fatalEach (statementCalls supply options) :=
    hbooks.fatal
  rw [countP_allCalls _ fun call hmem => (hbooks.sound call hmem).1, hdiagnostics]
  exact hfatal.trans (Nat.zero_add _)

theorem statementKinds_of_parse (supply : σ) (options : Options) :
    (parse supply options).log.filterMap LogEntry.statementKind? =
      (allCalls (statementCalls supply options)).map (·.start.current.kind) := by
  obtain ⟨after, hbooks, -, -, hlog⟩ := books_of_parse supply options
  rw [hlog, hbooks.kinds]
  rfl

/-- Without an opening brace in the supply, a parse makes no calls inside others. -/
theorem inner_of_lacks {supply : σ} {options : Options}
    (h : (Parser.ofSupply supply options).Lacks .openCurly) :
    ∀ call ∈ statementCalls supply options, call.inner = [] := by
  obtain ⟨after, hbooks, -⟩ := books_of_parse supply options
  intro call hmem
  obtain ⟨hcall, hstart, -⟩ := hbooks.sound call (mem_allCalls hmem)
  have hstarted : (Parser.ofSupply supply options).Precedes
      (((Parser.ofSupply supply options).write .openedProgram).write .entered) :=
    ((Parser.Follows.write _ _).trans (.write _ _)).precedes
  exact hcall.inner ((hstarted.trans hstart).lacks h)

/-- What no token of a list is, no token is that a parser comes to. -/
theorem Parser.lacks_ofList {tokens : List Token} {kind : TokenKind} (hkind : kind ≠ .endOfInput)
    (h : ∀ token ∈ tokens, token.kind ≠ kind) (options : Options) :
    (Parser.ofSupply (TokenStream.ofList tokens) options).Lacks kind := by
  let I (stream : TokenStream) : Prop := ∀ token ∈ stream.tokens, token.kind ≠ kind
  have hnext : ∀ stream, I stream →
      (TokenStream.next stream).1.kind ≠ kind ∧ I (TokenStream.next stream).2 := by
    rintro ⟨_ | ⟨token, tokens⟩, finish⟩ hI
    · exact ⟨hkind.symm, hI⟩
    · exact List.forall_mem_cons.1 hI
  -- the window is two tokens behind the supply, so the property is carried for both of them
  let J (parser : Parser TokenStream) : Prop :=
    parser.current.kind ≠ kind ∧ parser.peek.kind ≠ kind ∧ I parser.supply
  have hadvance : ∀ parser, J parser → J parser.advance := by
    rintro parser ⟨-, hpeek, hsupply⟩
    exact ⟨hpeek, hnext _ hsupply⟩
  have hskip : ∀ count parser, J parser → J (parser.skip count) := by
    intro count
    induction count with
    | zero => exact fun _ hJ => hJ
    | succ count ih => exact fun parser hJ => ih _ (hadvance parser hJ)
  intro count
  obtain ⟨hfirst, hI⟩ := hnext _ (show I (TokenStream.ofList tokens) from h)
  exact (hskip count _ ⟨hfirst, hnext _ hI⟩).1

/--
Whatever is parsed, as many calls of the statement routine come out without a statement, in the
program and in its blocks, as there are diagnostics other than integers out of range. Each call
accounts for its own: besides what the calls inside it record, there is one such diagnostic if it
comes out without a statement and none if it has one, and what was recorded before and in its course
stays. The program consists of the statements of the outermost calls, and each call is announced
once. So without braces there are as many announcements as statements and such diagnostics.
-/
theorem fatal_eq_dropped :
    (∀ {σ : Type} [TokenSource σ] (supply : σ) (options : Options),
      (allCalls (statementCalls supply options)).countP (·.value.isNone) =
        (parse supply options).diagnostics.countP Diagnostic.isFatal ∧
      (∀ call ∈ allCalls (statementCalls supply options), call.Sound ∧
        call.finish.diagnostics.toList <+: (parse supply options).diagnostics) ∧
      (parse supply options).program.statements =
        (statementCalls supply options).filterMap Call.value ∧
      (parse supply options).log.filterMap LogEntry.statementKind? =
        (allCalls (statementCalls supply options)).map (·.start.current.kind)) ∧
    (∀ (tokens : List Token) (options : Options), (∀ token ∈ tokens, token.kind ≠ .openCurly) →
      ((parseTokens tokens options).log.filterMap LogEntry.statementKind?).length =
        (parseTokens tokens options).program.statements.length +
          (parseTokens tokens options).diagnostics.countP Diagnostic.isFatal) := by
  constructor
  · intro σ _ supply options
    obtain ⟨after, hbooks, hprogram, hdiagnostics, -⟩ := books_of_parse supply options
    refine ⟨(countP_isFatal_of_parse supply options).symm, fun call hmem => ?_, hprogram,
      statementKinds_of_parse supply options⟩
    obtain ⟨hcall, -, hfinish⟩ := hbooks.sound call hmem
    rw [hdiagnostics]
    exact ⟨hcall, hfinish.diagnostics⟩
  · intro tokens options hcurly
    obtain ⟨-, -, hprogram, -⟩ := books_of_parse (TokenStream.ofList tokens) options
    have hinner := inner_of_lacks (Parser.lacks_ofList (by decide) hcurly options)
    have hkinds := statementKinds_of_parse (TokenStream.ofList tokens) options
    have hfatal := countP_isFatal_of_parse (TokenStream.ofList tokens) options
    rw [allCalls_eq_self hinner] at hkinds hfatal
    rw [parseTokens, hkinds, hprogram, hfatal, List.length_map, length_calls]

/-- The statement that lacks an operand is dropped, and the integer out of range is kept. -/
theorem fatal_eq_dropped_sample :
    (parseTokens (tokenize "a; let b = c + ; 9223372036854775808" none) {}).diagnostics.length = 2 ∧
    ((parseTokens (tokenize "a; let b = c + ; 9223372036854775808" none) {}).log.filterMap
      LogEntry.statementKind?).length =
    (parseTokens (tokenize "a; let b = c + ; 9223372036854775808" none)
      {}).program.statements.length +
    (parseTokens (tokenize "a; let b = c + ; 9223372036854775808" none) {}).diagnostics.countP
      Diagnostic.isFatal :=
  ⟨by decide +kernel, fatal_eq_dropped.2 _ {} (by decide +kernel)⟩

example : ((allCalls (statementCalls (Scanner.ofSource "if (a) \x7b b + ; c \x7d; )" none) {})).map
    (·.value.isNone)) = [false, true, false, true] := by
  decide +kernel

end Monkey
