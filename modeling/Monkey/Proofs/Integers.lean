import Monkey.Proofs.WellFormed

/-!
# Integers are exact or reported

An integer of a tree has the value of the digits it was written in, or zero if that is more than an
`Int64` holds. The second kind is among the diagnostics, in the order of the tree, and if nothing
else is there the two lists are the same (`integers_of_parseSource`). What is read in between and
left out again is why the diagnostics may name more.

Every action is seen as one that has some integers in hand, adds to them, and records
(`ParserM.Gathers`). What it adds and what it records fit together (`Reported`); that is kept when
one action follows another, so it is a congruence (`gathering`), whose index is what is in hand.
-/

namespace Monkey

open ParserM TokenSource

/-! ## The integers of a tree -/

mutual

/-- The integers of an expression from left to right: the value and the text of each. -/
def Expression.integers : Expression → List (Int64 × String)
  | .identifier _ => []
  | .integer value literal => [(value, literal)]
  | .boolean _ => []
  | .unary _ right => right.integers
  | .binary left _ right => left.integers ++ right.integers
  | .conditional condition consequence alternative =>
    condition.integers ++ integersBlock consequence ++ integersAlternative alternative
  | .function _ body => integersBlock body
  | .call callee arguments => callee.integers ++ integersEach arguments

/-- The integers of a statement from left to right. -/
def Statement.integers : Statement → List (Int64 × String)
  | .letBinding _ value => value.integers
  | .returning value => value.integers
  | .expression value => value.integers
  | .block body => integersBlock body

/-- The integers of statements from left to right. -/
def integersBlock : List Statement → List (Int64 × String)
  | [] => []
  | statement :: body => statement.integers ++ integersBlock body

/-- The integers of what follows the first block of a conditional. -/
def integersAlternative : Option (List Statement) → List (Int64 × String)
  | none => []
  | some body => integersBlock body

/-- The integers of expressions from left to right. -/
def integersEach : List Expression → List (Int64 × String)
  | [] => []
  | expression :: rest => expression.integers ++ integersEach rest

end

/-- The integers of a program from left to right. -/
def Program.integers (program : Program) : List (Int64 × String) :=
  integersBlock program.statements

theorem integersBlock_append (front back : List Statement) :
    integersBlock (front ++ back) = integersBlock front ++ integersBlock back := by
  induction front with
  | nil => rfl
  | cons statement front ih =>
    rw [List.cons_append, integersBlock, integersBlock, ih, List.append_assoc]

/-! ## Integers and diagnostics -/

/-- The text of an integer that a diagnostic finds out of range. -/
def Diagnostic.outOfRange? (diagnostic : Diagnostic) : Option String :=
  match diagnostic.cause with
  | .integerOutOfRange literal => some literal
  | _ => none

/-- The texts of the integers that cannot be read as an `Int64`. -/
def unreadable (integers : List (Int64 × String)) : List String :=
  (integers.map Prod.snd).filter fun literal => (Text.readInt64? literal.toList).isNone

/-- What a stretch of a run adds to the integers of a tree, and what it records: the value of each
integer is what its text is read as, or zero. Those that cannot be read are among the diagnostics in
order, and all of them if there are no other diagnostics. -/
structure Reported (integers : List (Int64 × String)) (recorded : List Diagnostic) : Prop where
  exact : ∀ integer ∈ integers, integer.1 = (Text.readInt64? integer.2.toList).getD 0
  inOrder : (unreadable integers).Sublist (recorded.filterMap Diagnostic.outOfRange?)
  all : (∀ d ∈ recorded, d.outOfRange?.isSome = true) →
    unreadable integers = recorded.filterMap Diagnostic.outOfRange?

namespace Reported

variable {integers more : List (Int64 × String)} {recorded further : List Diagnostic}

theorem nil : Reported [] [] :=
  ⟨List.forall_mem_nil _, List.nil_sublist _, fun _ => rfl⟩

theorem append (h : Reported integers recorded) (h' : Reported more further) :
    Reported (integers ++ more) (recorded ++ further) := by
  have hsplit : unreadable (integers ++ more) = unreadable integers ++ unreadable more := by
    rw [unreadable, List.map_append, List.filter_append, unreadable, unreadable]
  refine ⟨List.forall_mem_append.2 ⟨h.exact, h'.exact⟩, ?_, fun hall => ?_⟩
  · rw [hsplit, List.filterMap_append]
    exact h.inOrder.append h'.inOrder
  · obtain ⟨hrecorded, hfurther⟩ := List.forall_mem_append.1 hall
    rw [hsplit, List.filterMap_append, h.all hrecorded, h'.all hfurther]

/-- What was read before something else went wrong may be left out. -/
theorem dropped {d : Diagnostic} (hmem : d ∈ recorded) (hd : d.outOfRange? = none) :
    Reported [] recorded := by
  refine ⟨List.forall_mem_nil _, List.nil_sublist _, fun hall => ?_⟩
  have hsome := hall d hmem
  rw [hd] at hsome
  cases hsome

end Reported

/-! ## Outcomes -/

variable {σ α β : Type}

/-- An outcome behind some integers in hand: with a value, more may be in hand, and what was
recorded fits what was added; without one, something is wrong other than an integer. -/
inductive Outcome.Gathers (before : Parser σ) (given : List (Int64 × String))
    (held : α → List (Int64 × String)) : Outcome σ α → Prop where
  | ok {value : α} {after : Parser σ} {added : List (Int64 × String)} {recorded : List Diagnostic}
    (hheld : held value = given ++ added)
    (hrecorded : after.diagnostics.toList = before.diagnostics.toList ++ recorded)
    (h : Reported added recorded) : Gathers before given held (.ok value after)
  | absent {after : Parser σ} {recorded : List Diagnostic} {d : Diagnostic}
    (hrecorded : after.diagnostics.toList = before.diagnostics.toList ++ recorded)
    (hmem : d ∈ recorded) (hd : d.outOfRange? = none) : Gathers before given held (.absent after)
  | stuck : Gathers before given held .stuck

namespace Outcome.Gathers

variable {before mid after : Parser σ} {given : List (Int64 × String)}
  {held : α → List (Int64 × String)}

/-- Nothing is added and nothing recorded. -/
theorem quiet {value : α} (hheld : held value = given)
    (hsame : after.diagnostics = before.diagnostics) :
    (Outcome.ok value after).Gathers before given held :=
  .ok (by rw [hheld, List.append_nil]) (by rw [hsame, List.append_nil]) .nil

/-- One diagnostic that is not about an integer. -/
theorem wrong {cause : Cause} {position : Position}
    (hcause : Diagnostic.outOfRange? ⟨cause, position⟩ = none) :
    (Outcome.absent (before.record cause position) : Outcome σ α).Gathers before given held :=
  .absent (by rw [Parser.record, Array.toList_push]) (List.mem_singleton.2 rfl) hcause

/-- What was added and recorded in front counts too. -/
theorem prepend {added : List (Int64 × String)} {recorded : List Diagnostic}
    {outcome : Outcome σ α}
    (hrecorded : mid.diagnostics.toList = before.diagnostics.toList ++ recorded)
    (hreported : Reported added recorded) (h : outcome.Gathers mid (given ++ added) held) :
    outcome.Gathers before given held := by
  cases h with
  | ok hheld hfurther hmore =>
    rw [hrecorded, List.append_assoc] at hfurther
    rw [List.append_assoc] at hheld
    exact .ok hheld hfurther (hreported.append hmore)
  | absent hfurther hmem hd =>
    rw [hrecorded, List.append_assoc] at hfurther
    exact .absent hfurther (List.mem_append_right _ hmem) hd
  | stuck => exact .stuck

end Outcome.Gathers

/-! ## Actions -/

/-- An action that adds to the integers in hand, and records what fits. -/
def ParserM.Gathers (action : ParserM σ α) (given : List (Int64 × String))
    (held : α → List (Int64 × String)) : Prop :=
  ∀ parser, (action.run parser).Gathers parser given held

namespace ParserM.Gathers

variable {given : List (Int64 × String)} {held : α → List (Int64 × String)}
  {held' : β → List (Int64 × String)} {action : ParserM σ α}

theorem pure {value : α} (h : held value = given) :
    (Pure.pure value : ParserM σ α).Gathers given held :=
  fun _ => .quiet h rfl

theorem get : (ParserM.get : ParserM σ (Parser σ)).Gathers given fun _ => given :=
  fun _ => .quiet rfl rfl

theorem peekIs (kind : TokenKind) :
    (ParserM.peekIs kind : ParserM σ Bool).Gathers given fun _ => given :=
  fun _ => .quiet rfl rfl

theorem advance [TokenSource σ] : (ParserM.advance : ParserM σ Unit).Gathers given fun _ => given :=
  fun _ => .quiet rfl rfl

theorem announce (event : Event) :
    (ParserM.announce event : ParserM σ Unit).Gathers given fun _ => given :=
  fun _ => .quiet rfl rfl

theorem expect [TokenSource σ] (kind : TokenKind) :
    (ParserM.expect kind : ParserM σ Unit).Gathers given fun _ => given := by
  intro parser
  rw [run_expect]
  split
  next => exact .quiet rfl rfl
  next => exact .wrong rfl

/-- An action goes on with what the one in front of it has in hand. -/
theorem bind {next : α → ParserM σ β} (h : action.Gathers given held)
    (hnext : ∀ value, (next value).Gathers (held value) held') :
    (action >>= next).Gathers given held' := by
  intro parser
  have hrun := h parser
  rw [run_bind]
  cases out : action.run parser with
  | ok value after =>
    rw [out] at hrun
    obtain ⟨hheld, hrecorded, hreported⟩ := hrun
    have hthen := hnext value after
    rw [hheld] at hthen
    exact hthen.prepend hrecorded hreported
  | absent after =>
    rw [out] at hrun
    obtain _ | ⟨hrecorded, hmem, hd⟩ := hrun
    exact .absent hrecorded hmem hd
  | stuck => exact .stuck

/-- What has no value adds nothing. -/
theorem attempt {held' : Option α → List (Int64 × String)} (h : action.Gathers given held)
    (hsome : ∀ value, held' (some value) = held value) (hnone : held' none = given) :
    (ParserM.attempt action).Gathers given held' := by
  intro parser
  have hrun := h parser
  rw [run_attempt]
  cases out : action.run parser with
  | ok value after =>
    rw [out] at hrun
    obtain ⟨hheld, hrecorded, hreported⟩ := hrun
    exact .ok ((hsome value).trans hheld) hrecorded hreported
  | absent after =>
    rw [out] at hrun
    obtain _ | ⟨hrecorded, hmem, hd⟩ := hrun
    exact .ok (by rw [hnone, List.append_nil]) hrecorded (.dropped hmem hd)
  | stuck => exact .stuck

theorem nested (h : action.Gathers given held) : (ParserM.nested action).Gathers given held := by
  intro parser
  rw [run_nested]
  split
  next =>
    have hrun := h { parser with depth := parser.depth + 1 }
    cases out : action.run { parser with depth := parser.depth + 1 } with
    | ok value after =>
      rw [out] at hrun
      obtain ⟨hheld, hrecorded, hreported⟩ := hrun
      exact .ok hheld hrecorded hreported
    | absent after =>
      rw [out] at hrun
      obtain _ | ⟨hrecorded, hmem, hd⟩ := hrun
      exact .absent hrecorded hmem hd
    | stuck => exact .stuck
  next => exact .wrong rfl

theorem ite {c : Prop} [Decidable c] {a b : ParserM σ α} (ha : a.Gathers given held)
    (hb : b.Gathers given held) : (if c then a else b).Gathers given held := by
  split
  next => exact ha
  next => exact hb

end ParserM.Gathers

/-- Here an integer comes in hand, and if it is out of range it is recorded. -/
theorem gathers_integerOperand (given : List (Int64 × String)) :
    (integerOperand : ParserM σ Expression).Gathers given fun value =>
      given ++ value.integers := by
  intro parser
  change (integerOperand parser).Gathers parser given _
  unfold integerOperand
  cases hread : Text.readInt64? parser.current.text.toList with
  | some value =>
    refine .ok rfl (List.append_nil _).symm ⟨?_, ?_, fun _ => ?_⟩
    · simp [Expression.integers, hread]
    · simp [Expression.integers, unreadable, hread]
    · simp [Expression.integers, unreadable, hread]
  | none =>
    refine .ok rfl (Array.toList_push ..) ⟨?_, ?_, fun _ => ?_⟩
    · simp [Expression.integers, hread]
    · simp [Expression.integers, unreadable, hread, Diagnostic.outOfRange?]
    · simp [Expression.integers, unreadable, hread, Diagnostic.outOfRange?]

variable [TokenSource σ]

theorem gathers_finishStatement {given : List (Int64 × String)}
    {held : Expression → List (Int64 × String)} {value : Expression} (h : held value = given) :
    (finishStatement (some value) : ParserM σ Expression).Gathers given held := by
  refine (ParserM.Gathers.peekIs .semicolon).bind fun there => .ite ?_ ?_
  · exact ParserM.Gathers.advance.bind fun _ => .pure h
  · refine (ParserM.Gathers.pure h).bind fun value => ?_
    refine ParserM.Gathers.get.bind fun parser => .ite (.pure rfl) ?_
    exact (ParserM.Gathers.expect .semicolon).bind fun _ => .pure rfl

/-- The value of a statement stays in hand up to its end. -/
theorem gathers_statementValue {given : List (Int64 × String)}
    {held : Expression → List (Int64 × String)} {value : ParserM σ Expression}
    (h : value.Gathers given held) :
    (ParserM.attempt value >>= finishStatement).Gathers given held := by
  intro parser
  have hrun := h parser
  rw [run_bind, run_attempt]
  cases out : value.run parser with
  | ok value after =>
    rw [out] at hrun
    obtain ⟨hheld, hrecorded, hreported⟩ := hrun
    exact (gathers_finishStatement hheld after).prepend hrecorded hreported
  | absent after =>
    rw [out] at hrun
    obtain _ | ⟨hrecorded, hmem, hd⟩ := hrun
    simp only
    rw [run_finishStatement_none]
    refine .absent ?_ hmem hd
    split
    next => exact hrecorded
    next => exact hrecorded
  | stuck => exact .stuck

/-! ## Routines -/

/-- The integers of what is read, by its category. -/
def Category.integers : (category : Category) → category.Value → List (Int64 × String)
  | names, _ => []
  | expression, e => e.integers
  | operand, e => e.integers
  | value, e => e.integers
  | statement, s => s.integers
  | attempt, s? => integersBlock s?.toList
  | block, body => integersBlock body
  | alternative, body? => integersAlternative body?
  | arguments, expressions => integersEach expressions

/-- What is in hand behind a value is what was in front of it and the integers of the value. -/
def inHand : Correspondence (List (Int64 × String)) where
  holds category i j value _ := j = i ++ category.integers value
  noNames := (List.append_nil _).symm
  name _ h := h
  identifier _ := (List.append_nil _).symm
  boolean _ := (List.append_nil _).symm
  unary _ h := h
  grouping h := h
  conditional := by
    rintro i _ _ _ _ _ _ _ _ _ rfl rfl rfl
    simp [Category.integers, Expression.integers]
  function := by
    rintro i _ _ _ _ _ _ rfl rfl
    simp [Category.integers, Expression.integers]
  binary _ := by
    rintro rfl rfl
    simp [Category.integers, Expression.integers]
  call := by
    rintro i _ _ _ _ _ _ rfl rfl
    simp [Category.integers, Expression.integers]
  noArguments := (List.append_nil _).symm
  argument := by
    rintro i _ _ _ _ _ _ rfl rfl
    simp [Category.integers, integersEach]
  noAlternative := (List.append_nil _).symm
  alternative h := h
  letBinding _ h := h
  returning h := h
  expressionStatement h := h
  block h := h
  noStatements := (List.append_nil _).symm
  statements := by
    rintro i _ _ _ _ _ _ rfl rfl
    simp [Category.integers, integersBlock_append]

/-- Gathering integers by rules for single actions: it is about one action. -/
def gatheringRules (σ : Type) [TokenSource σ] : ActionRules σ σ (List (Int64 × String)) where
  values := inHand
  inner := id
  Relates category s i a _ := a.Gathers i fun value => s ++ category.integers value
  stuck _ := .stuck
  pure h := .pure h.symm
  bind _ h hnext := h.bind fun value => hnext (w := value) rfl
  get h := ParserM.Gathers.get.bind fun parser => h parser parser (.refl parser)
  announce _ h := (ParserM.Gathers.announce _).bind fun _ => h
  advance h := ParserM.Gathers.advance.bind fun _ => h
  expect _ h := (ParserM.Gathers.expect _).bind fun _ => h
  missing _ _ := .wrong rfl
  ite h h' := h.ite h'
  nested h := h.nested
  integer := gathers_integerOperand _
  statementValue h := gathers_statementValue h
  ofValue h hvalue := h.bind fun value => .pure (hvalue (w := value) rfl).symm

/-- Gathering integers as a congruence. -/
def gathering (σ : Type) [TokenSource σ] : Congruence σ σ (List (Int64 × String)) :=
  (gatheringRules σ).congruence

theorem gathering_statementRules : (gathering σ).StatementRules := by
  refine (gatheringRules σ).statementRules (fun h => ?_) fun h => ?_
  · exact (ParserM.Gathers.announce _).bind fun _ => h
  · exact h.attempt (fun _ => congrArg _ (List.append_nil _)) (List.append_nil _)

/-- Every routine adds the integers of what it reads, with any number of steps. -/
theorem routines_gather (fuel : Nat) :
    (gathering σ).Keeps fuel (routines fuel : Routines σ) (routines fuel) :=
  (gathering σ).keeps_routines gathering_statementRules fuel

/-- The integers of what is parsed and the diagnostics fit together. -/
theorem reported_of_parse (supply : σ) (options : Options) :
    Reported (parse supply options).program.integers (parse supply options).diagnostics := by
  obtain ⟨statements, after, hrun, hprogram, hdiagnostics⟩ := parse_eq_of_statements supply options
  have hstatements := (routines_gather (σ := σ) (Parser.ofSupply supply options).steps).statements
    (n := 0) (i := []) .program (.of_not_counted not_false)
  have hgathers := hstatements (((Parser.ofSupply supply options).write .openedProgram).write
    .entered)
  rw [hrun] at hgathers
  obtain @⟨_, _, added, _, hheld, hrecorded, hreported⟩ := hgathers
  have hadded : integersBlock statements = added := hheld
  rw [hprogram, hdiagnostics, Program.integers, hadded, hrecorded]
  exact hreported

/-! ## Sources -/

mutual

/-- The integers of a well-formed expression are written in digits. -/
theorem Expression.WellFormed.digits {calls : Bool} : {e : Expression} → e.WellFormed calls →
    ∀ integer ∈ e.integers, InDigits integer.2
  | .identifier _, _ => List.forall_mem_nil _
  | .integer _ _, .integer hdigits _ _ => List.forall_mem_singleton.2 hdigits
  | .boolean _, _ => List.forall_mem_nil _
  | .unary _ _, .unary _ hright => hright.digits
  | .binary _ _ _, .binary _ hleft hright => List.forall_mem_append.2 ⟨hleft.digits, hright.digits⟩
  | .conditional _ _ _, .conditional hcondition hconsequence halternative =>
    List.forall_mem_append.2 ⟨List.forall_mem_append.2
      ⟨hcondition.digits, digitsBlock hconsequence⟩, digitsAlternative halternative⟩
  | .function _ _, .function _ hbody => digitsBlock hbody
  | .call _ _, .call _ hcallee harguments =>
    List.forall_mem_append.2 ⟨hcallee.digits, digitsEach harguments⟩

theorem Statement.WellFormed.digits {calls : Bool} : {s : Statement} → s.WellFormed calls →
    ∀ integer ∈ s.integers, InDigits integer.2
  | .letBinding _ _, .letBinding _ hvalue => hvalue.digits
  | .returning _, .returning hvalue => hvalue.digits
  | .expression _, .expression hvalue => hvalue.digits

theorem digitsBlock {calls : Bool} : {body : List Statement} →
    (∀ statement ∈ body, statement.WellFormed calls) → ∀ integer ∈ integersBlock body,
      InDigits integer.2
  | [], _ => List.forall_mem_nil _
  | _ :: _, h =>
    List.forall_mem_append.2 ⟨(List.forall_mem_cons.1 h).1.digits,
      digitsBlock (List.forall_mem_cons.1 h).2⟩

theorem digitsAlternative {calls : Bool} : {alternative : Option (List Statement)} →
    (∀ body ∈ alternative, ∀ statement ∈ body, statement.WellFormed calls) →
    ∀ integer ∈ integersAlternative alternative, InDigits integer.2
  | none, _ => List.forall_mem_nil _
  | some body, h => digitsBlock (h body rfl)

theorem digitsEach {calls : Bool} : {expressions : List Expression} →
    (∀ e ∈ expressions, e.WellFormed calls) → ∀ integer ∈ integersEach expressions,
      InDigits integer.2
  | [], _ => List.forall_mem_nil _
  | _ :: _, h =>
    List.forall_mem_append.2 ⟨(List.forall_mem_cons.1 h).1.digits,
      digitsEach (List.forall_mem_cons.1 h).2⟩

end

/-- What digits are read as, and that they are not read if they stand for too much. -/
theorem InDigits.readInt64?_cases {text : String} (h : InDigits text) :
    (∃ value, Text.readInt64? text.toList = some value ∧
      value.toInt = Text.digitsValue text.toList ∧
      Text.digitsValue text.toList ≤ 9223372036854775807) ∨
    Text.readInt64? text.toList = none ∧
      9223372036854775807 < Text.digitsValue text.toList := by
  obtain ⟨hne, hdigits⟩ := h
  cases hread : Text.readInt64? text.toList with
  | some value =>
    have hvalue := Text.readDecimal?_of_readInt64? hread
    rw [Text.readDecimal?_of_all_isDigit hne hdigits, Option.some_inj] at hvalue
    have hlt := value.toInt_lt
    exact .inl ⟨value, rfl, hvalue.symm, by omega⟩
  | none =>
    have hgreat := Text.greatestInt64_lt_digitsValue hne hdigits hread
    exact .inr ⟨rfl, by rw [Text.greatestInt64] at hgreat; omega⟩

/-- The texts of the integers that stand for more than an `Int64` holds. -/
def tooGreat (integers : List (Int64 × String)) : List String :=
  (integers.map Prod.snd).filter fun literal =>
    9223372036854775807 < Text.digitsValue literal.toList

theorem tooGreat_eq_unreadable {integers : List (Int64 × String)}
    (h : ∀ integer ∈ integers, InDigits integer.2) :
    tooGreat integers = unreadable integers := by
  refine List.filter_congr fun literal hmem => ?_
  obtain ⟨integer, hinteger, rfl⟩ := List.mem_map.1 hmem
  rcases (h integer hinteger).readInt64?_cases with ⟨value, hread, -, hle⟩ | ⟨hread, hlt⟩
  · rw [hread, decide_eq_false (Nat.not_lt.2 hle)]
    rfl
  · rw [hread, decide_eq_true hlt]
    rfl

/--
Every integer of what a source is parsed into is written in digits and has the value of these, or
zero if they stand for too much. The texts of the latter are, in order, among those that the
diagnostics find out of range, and the two lists are the same if there are no other diagnostics.
-/
theorem integers_of_parseSource (source : String) (file : Option String) (options : Options) :
    (∀ integer ∈ (parseSource source file options).program.integers,
      InDigits integer.2 ∧
      integer.1.toInt = (if Text.digitsValue integer.2.toList ≤ 9223372036854775807
        then Text.digitsValue integer.2.toList else 0 : Nat)) ∧
    (tooGreat (parseSource source file options).program.integers).Sublist
      ((parseSource source file options).diagnostics.filterMap Diagnostic.outOfRange?) ∧
    ((∀ d ∈ (parseSource source file options).diagnostics, d.outOfRange?.isSome = true) →
      tooGreat (parseSource source file options).program.integers =
        (parseSource source file options).diagnostics.filterMap Diagnostic.outOfRange?) := by
  have hdigits : ∀ integer ∈ (parseSource source file options).program.integers,
      InDigits integer.2 :=
    digitsBlock (wellFormed_of_parseSource source file options)
  have hreported : Reported (parseSource source file options).program.integers
      (parseSource source file options).diagnostics := reported_of_parse _ options
  rw [tooGreat_eq_unreadable hdigits]
  refine ⟨fun integer hmem => ?_, hreported.inOrder, hreported.all⟩
  refine ⟨hdigits integer hmem, ?_⟩
  rw [hreported.exact integer hmem]
  rcases (hdigits integer hmem).readInt64?_cases with ⟨value, hread, hvalue, hle⟩ | ⟨hread, hlt⟩
  · rw [hread, if_pos hle]
    exact hvalue
  · rw [hread, if_neg (Nat.not_le.2 hlt)]
    rfl

end Monkey
