import Monkey.Proofs.Input

/-!
# Strict and lenient parsing

With `strictSemicolons` a statement that lacks its semicolon is recorded and left out; without, it
is kept. That is all the difference: two parsers over the same supply, one strict and one lenient,
go side by side through the same tokens (`Parser.Paired`), also where something else is wrong. What
the strict one reads is what the lenient one reads with some statements left out
(`Expression.Abridges`), and what the lenient one records is what the strict one records but for the
missing semicolons. That is a congruence (`agreeing`). Its index counts the statements left out, so
that leaving out none is the same as reading the same.

A statement that is left out need not show in the result: what it was part of can fail later on.
Then the lenient parser has recorded something, and `Parser.PairedFrom` says just that: as long as
the lenient parser records nothing, no statement is lost from view.
-/

namespace Monkey

open ParserM

/-! ## Leaving statements out -/

mutual

/-- The first expression is the second with a number of statements left out of its blocks. -/
inductive Expression.Abridges : Nat → Expression → Expression → Prop where
  | identifier (name : String) : Expression.Abridges 0 (.identifier name) (.identifier name)
  | integer (value : Int64) (literal : String) :
    Expression.Abridges 0 (.integer value literal) (.integer value literal)
  | boolean (value : Bool) : Expression.Abridges 0 (.boolean value) (.boolean value)
  | unary {i : Nat} {right right' : Expression} (operator : String) :
    Expression.Abridges i right right' →
    Expression.Abridges i (.unary operator right) (.unary operator right')
  | binary {i j : Nat} {left left' right right' : Expression} (operator : String) :
    Expression.Abridges i left left' → Expression.Abridges j right right' →
    Expression.Abridges (i + j) (.binary left operator right) (.binary left' operator right')
  | conditional {i j k : Nat} {condition condition' : Expression}
      {consequence consequence' : List Statement}
      {alternative alternative' : Option (List Statement)} :
    Expression.Abridges i condition condition' → AbridgesBlock j consequence consequence' →
    AbridgesAlternative k alternative alternative' →
    Expression.Abridges (i + (j + k)) (.conditional condition consequence alternative)
      (.conditional condition' consequence' alternative')
  | function {i : Nat} {body body' : List Statement} (parameters : List String) :
    AbridgesBlock i body body' →
    Expression.Abridges i (.function parameters body) (.function parameters body')
  | call {i j : Nat} {callee callee' : Expression} {arguments arguments' : List Expression} :
    Expression.Abridges i callee callee' → AbridgesEach j arguments arguments' →
    Expression.Abridges (i + j) (.call callee arguments) (.call callee' arguments')

/-- The first statement is the second with a number of statements left out of its blocks. -/
inductive Statement.Abridges : Nat → Statement → Statement → Prop where
  | letBinding {i : Nat} {value value' : Expression} (name : String) :
    Expression.Abridges i value value' →
    Statement.Abridges i (.letBinding name value) (.letBinding name value')
  | returning {i : Nat} {value value' : Expression} :
    Expression.Abridges i value value' →
    Statement.Abridges i (.returning value) (.returning value')
  | expression {i : Nat} {value value' : Expression} :
    Expression.Abridges i value value' →
    Statement.Abridges i (.expression value) (.expression value')
  | block {i : Nat} {body body' : List Statement} :
    AbridgesBlock i body body' → Statement.Abridges i (.block body) (.block body')

/-- The first statements are the second with a number left out, of them and of their blocks. -/
inductive AbridgesBlock : Nat → List Statement → List Statement → Prop where
  | nil : AbridgesBlock 0 [] []
  | keep {i j : Nat} {s s' : Statement} {rest rest' : List Statement} :
    Statement.Abridges i s s' → AbridgesBlock j rest rest' →
    AbridgesBlock (i + j) (s :: rest) (s' :: rest')
  | leaveOut {i : Nat} {rest rest' : List Statement} (s : Statement) :
    AbridgesBlock i rest rest' → AbridgesBlock (i + 1) rest (s :: rest')

/-- The relation between blocks that may be lacking. -/
inductive AbridgesAlternative : Nat → Option (List Statement) → Option (List Statement) → Prop where
  | none : AbridgesAlternative 0 none none
  | some {i : Nat} {body body' : List Statement} :
    AbridgesBlock i body body' → AbridgesAlternative i (some body) (some body')

/-- The relation between expressions, one by one. -/
inductive AbridgesEach : Nat → List Expression → List Expression → Prop where
  | nil : AbridgesEach 0 [] []
  | cons {i j : Nat} {e e' : Expression} {rest rest' : List Expression} :
    Expression.Abridges i e e' → AbridgesEach j rest rest' →
    AbridgesEach (i + j) (e :: rest) (e' :: rest')

end

theorem AbridgesBlock.length_le {count : Nat} {short full : List Statement} :
    AbridgesBlock count short full → short.length ≤ full.length
  | .nil => Nat.le_refl _
  | .keep _ hrest => Nat.succ_le_succ hrest.length_le
  | .leaveOut _ hrest => Nat.le_succ_of_le hrest.length_le

mutual

theorem Expression.Abridges.eq_iff {count : Nat} {short full : Expression} :
    short.Abridges count full → (short = full ↔ count = 0)
  | .identifier _ => by simp
  | .integer _ _ => by simp
  | .boolean _ => by simp
  | .unary _ hright => by simp [hright.eq_iff]
  | .binary _ hleft hright => by simp [hleft.eq_iff, hright.eq_iff]
  | .conditional hcondition hconsequence halternative => by
    simp [hcondition.eq_iff, hconsequence.eq_iff, halternative.eq_iff]
  | .function _ hbody => by simp [hbody.eq_iff]
  | .call hcallee harguments => by simp [hcallee.eq_iff, harguments.eq_iff]

theorem Statement.Abridges.eq_iff {count : Nat} {short full : Statement} :
    short.Abridges count full → (short = full ↔ count = 0)
  | .letBinding _ hvalue => by simp [hvalue.eq_iff]
  | .returning hvalue => by simp [hvalue.eq_iff]
  | .expression hvalue => by simp [hvalue.eq_iff]
  | .block hbody => by simp [hbody.eq_iff]

theorem AbridgesBlock.eq_iff {count : Nat} {short full : List Statement} :
    AbridgesBlock count short full → (short = full ↔ count = 0)
  | .nil => by simp
  | .keep hs hrest => by simp [hs.eq_iff, hrest.eq_iff]
  | .leaveOut s hrest => by
    have hlength := hrest.length_le
    rw [iff_false_right (Nat.succ_ne_zero _)]
    rintro rfl
    exact Nat.not_succ_le_self _ hlength

theorem AbridgesAlternative.eq_iff {count : Nat} {short full : Option (List Statement)} :
    AbridgesAlternative count short full → (short = full ↔ count = 0)
  | .none => by simp
  | .some hbody => by simp [hbody.eq_iff]

theorem AbridgesEach.eq_iff {count : Nat} {short full : List Expression} :
    AbridgesEach count short full → (short = full ↔ count = 0)
  | .nil => by simp
  | .cons he hrest => by simp [he.eq_iff, hrest.eq_iff]

end

/-! ## Parsers side by side -/

/-- Whether a semicolon was needed and another token found. -/
def Diagnostic.isMissingSemicolon (diagnostic : Diagnostic) : Bool :=
  match diagnostic.cause with
  | .unexpectedToken .semicolon _ => true
  | _ => false

variable {σ α β : Type}

/-- How many semicolons were found missing. -/
def Parser.missing (parser : Parser σ) : Nat :=
  parser.count Diagnostic.isMissingSemicolon

/-- A strict and a lenient parser at the same place, with the same diagnostics but for the missing
semicolons. -/
structure Parser.Paired (strict lenient : Parser σ) : Prop where
  window : strict.window = lenient.window
  tables : strict.tables = lenient.tables
  depth : strict.depth = lenient.depth
  isStrict : strict.options.strictSemicolons = true
  isLenient : lenient.options.strictSemicolons = false
  diagnostics : lenient.diagnostics.toList =
    strict.diagnostics.toList.filter (!·.isMissingSemicolon)

/-- Parsers side by side that come after others, with a number of statements left out by the strict
one. Each of them has its diagnostic; and if none was left out then no semicolon is missing, or
else the lenient parser found something wrong in what the statement was part of. -/
structure Parser.PairedFrom (s p q t : Parser σ) (count : Nat) : Prop where
  paired : q.Paired t
  size_le : p.diagnostics.size ≤ t.diagnostics.size
  missing_le : s.missing + count ≤ q.missing
  missing_eq : t.diagnostics.size = p.diagnostics.size → count = 0 → q.missing = s.missing

namespace Parser.Paired

variable {s p : Parser σ}

theorem current (h : s.Paired p) : s.current = p.current :=
  congrArg Prod.fst h.window

theorem peek (h : s.Paired p) : s.peek = p.peek :=
  congrArg (·.2.1) h.window

theorem write (h : s.Paired p) (entry entry' : LogEntry) :
    (s.write entry).Paired (p.write entry') :=
  ⟨h.window, h.tables, h.depth, h.isStrict, h.isLenient, h.diagnostics⟩

theorem advance [TokenSource σ] (h : s.Paired p) : s.advance.Paired p.advance :=
  ⟨window_advance h.window, h.tables, h.depth, h.isStrict, h.isLenient, h.diagnostics⟩

theorem enterNesting (h : s.Paired p) :
    { s with depth := s.depth + 1 }.Paired { p with depth := p.depth + 1 } :=
  ⟨h.window, h.tables, congrArg (· + 1) h.depth, h.isStrict, h.isLenient, h.diagnostics⟩

theorem leaveNesting (h : s.Paired p) : s.leaveNesting.Paired p.leaveNesting :=
  ⟨h.window, h.tables, congrArg (· - 1) h.depth, h.isStrict, h.isLenient, h.diagnostics⟩

/-- What is wrong apart from semicolons is recorded by both. -/
theorem record (h : s.Paired p) {cause : Cause} {position : Position}
    (hcause : Diagnostic.isMissingSemicolon ⟨cause, position⟩ = false) :
    (s.record cause position).Paired (p.record cause position) := by
  refine ⟨h.window, h.tables, h.depth, h.isStrict, h.isLenient, ?_⟩
  simp [Parser.record, h.diagnostics, hcause]

/-- A missing semicolon is recorded by the strict parser only. -/
theorem recordStrict (h : s.Paired p) {cause : Cause} {position : Position}
    (hcause : Diagnostic.isMissingSemicolon ⟨cause, position⟩ = true) :
    (s.record cause position).Paired p := by
  refine ⟨h.window, h.tables, h.depth, h.isStrict, h.isLenient, ?_⟩
  simp [Parser.record, h.diagnostics, hcause]

end Parser.Paired

theorem Parser.missing_record (parser : Parser σ) (cause : Cause) (position : Position) :
    (parser.record cause position).missing = parser.missing +
      if Diagnostic.isMissingSemicolon ⟨cause, position⟩ then 1 else 0 :=
  parser.count_record Diagnostic.isMissingSemicolon cause position

theorem Parser.size_record (parser : Parser σ) (cause : Cause) (position : Position) :
    (parser.record cause position).diagnostics.size = parser.diagnostics.size + 1 :=
  Array.size_push _

namespace Parser.PairedFrom

variable {s p q t : Parser σ}

/-- Parsers that went on without recording anything. -/
theorem of_same (h : q.Paired t) (hs : q.diagnostics = s.diagnostics)
    (hp : t.diagnostics = p.diagnostics) : s.PairedFrom p q t 0 := by
  have hmissing : q.missing = s.missing := by
    rw [Parser.missing, Parser.count, hs, Parser.missing, Parser.count]
  exact ⟨h, Nat.le_of_eq (congrArg _ hp.symm), Nat.le_of_eq hmissing.symm, fun _ _ => hmissing⟩

theorem trans {q' t' : Parser σ} {i j : Nat} (h : s.PairedFrom p q t i)
    (h' : q.PairedFrom t q' t' j) : s.PairedFrom p q' t' (i + j) := by
  obtain ⟨-, hsize, hle, heq⟩ := h
  obtain ⟨hpaired, hsize', hle', heq'⟩ := h'
  refine ⟨hpaired, Nat.le_trans hsize hsize', by omega, fun hsame hzero => ?_⟩
  rw [heq' (by omega) (by omega), heq (by omega) (by omega)]

end Parser.PairedFrom

/-! ## Outcomes and actions -/

/-- Outcomes of a strict and a lenient parser, with values that are related. Where a statement may
be dropped, the strict parser may come out without the value that the lenient one has. -/
inductive Outcome.Agrees (drops : Bool) (R : Nat → α → α → Prop) (s p : Parser σ) :
    Outcome σ α → Outcome σ α → Prop where
  | ok {count : Nat} {v w : α} {q t : Parser σ} :
    R count v w → s.PairedFrom p q t count → Agrees drops R s p (.ok v q) (.ok w t)
  | absent {q t : Parser σ} : q.Paired t → s.missing ≤ q.missing →
    p.diagnostics.size < t.diagnostics.size → Agrees drops R s p (.absent q) (.absent t)
  | dropped {w : α} {q t : Parser σ} : drops = true → q.Paired t → s.missing < q.missing →
    p.diagnostics.size ≤ t.diagnostics.size → Agrees drops R s p (.absent q) (.ok w t)
  | stuck : Agrees drops R s p .stuck .stuck

theorem Outcome.Agrees.prepend {drops : Bool} {R : Nat → α → α → Prop} {s p q t : Parser σ}
    {count : Nat} {x y : Outcome σ α} (hfrom : s.PairedFrom p q t count)
    (h : x.Agrees drops (fun i => R (count + i)) q t y) : x.Agrees drops R s p y := by
  have hle := hfrom.missing_le
  have hsize := hfrom.size_le
  cases h with
  | ok hvalue hmore => exact .ok hvalue (hfrom.trans hmore)
  | absent hpaired hmissing hless => exact .absent hpaired (by omega) (by omega)
  | dropped hdrops hpaired hmissing hmore => exact .dropped hdrops hpaired (by omega) (by omega)
  | stuck => exact .stuck

/-- Parsers that went on without recording anything come out like those they went on from. -/
theorem Outcome.Agrees.of_same {drops : Bool} {R : Nat → α → α → Prop} {s p q t : Parser σ}
    {x y : Outcome σ α} (hpaired : q.Paired t) (hs : q.diagnostics = s.diagnostics)
    (hp : t.diagnostics = p.diagnostics) (h : x.Agrees drops R q t y) : x.Agrees drops R s p y := by
  refine .prepend (.of_same hpaired hs hp) ?_
  simpa only [Nat.zero_add] using h

/-- Two actions that agree when a strict and a lenient parser run them side by side. -/
def ParserM.Agrees (drops : Bool) (R : Nat → α → α → Prop) (a b : ParserM σ α) : Prop :=
  ∀ s p, s.Paired p → (a.run s).Agrees drops R s p (b.run p)

/-- What is left out where a value may be lacking. -/
inductive AbridgesOption (R : Nat → α → α → Prop) : Nat → Option α → Option α → Prop where
  | none : AbridgesOption R 0 none none
  | some {count : Nat} {v w : α} : R count v w → AbridgesOption R count (some v) (some w)
  | dropped (w : α) : AbridgesOption R 1 none (some w)

theorem AbridgesBlock.append_toList {i j : Nat} {s s' : Option Statement}
    {rest rest' : List Statement} (h : AbridgesOption Statement.Abridges i s s')
    (hrest : AbridgesBlock j rest rest') :
    AbridgesBlock (i + j) (s.toList ++ rest) (s'.toList ++ rest') := by
  cases h with
  | none => rwa [Nat.zero_add]
  | some hs => exact .keep hs hrest
  | dropped s => rw [Nat.add_comm]; exact .leaveOut s hrest

namespace ParserM.Agrees

variable {drops : Bool} {R : Nat → α → α → Prop} {R' : Nat → β → β → Prop}

theorem pure {v w : α} (h : R 0 v w) :
    Agrees drops R (Pure.pure v : ParserM σ α) (Pure.pure w) :=
  fun _ _ hpaired => .ok h (.of_same hpaired rfl rfl)

theorem bind {a b : ParserM σ α} {f g : α → ParserM σ β} (h : Agrees false R a b)
    (hnext : ∀ i v w, R i v w → Agrees drops (fun j => R' (i + j)) (f v) (g w)) :
    Agrees drops R' (a >>= f) (b >>= g) := by
  intro s p hpaired
  have hrun := h s p hpaired
  rw [run_bind, run_bind]
  generalize a.run s = x at hrun ⊢
  generalize b.run p = y at hrun ⊢
  cases hrun with
  | ok hvalue hfrom => exact .prepend hfrom (hnext _ _ _ hvalue _ _ hfrom.paired)
  | absent hpaired hmissing hless => exact .absent hpaired hmissing hless
  | dropped hdrops _ _ _ => cases hdrops
  | stuck => exact .stuck

/-- Building something from a value that the strict parser may lack. -/
theorem map {a b : ParserM σ α} {f g : α → β} (h : Agrees drops R a b)
    (hvalue : ∀ i v w, R i v w → R' i (f v) (g w)) :
    Agrees drops R' (a >>= fun v => Pure.pure (f v)) (b >>= fun w => Pure.pure (g w)) := by
  intro s p hpaired
  have hrun := h s p hpaired
  rw [run_bind, run_bind]
  generalize a.run s = x at hrun ⊢
  generalize b.run p = y at hrun ⊢
  cases hrun with
  | ok hrelated hfrom => exact .ok (hvalue _ _ _ hrelated) hfrom
  | absent hpaired hmissing hless => exact .absent hpaired hmissing hless
  | dropped hdrops hpaired hmissing hsize => exact .dropped hdrops hpaired hmissing hsize
  | stuck => exact .stuck

theorem attempt {R' : Nat → Option α → Option α → Prop} {a b : ParserM σ α}
    (h : Agrees drops R a b) (hnone : R' 0 none none)
    (hsome : ∀ {i v w}, R i v w → R' i (some v) (some w)) (hdropped : ∀ w, R' 1 none (some w)) :
    Agrees false R' (ParserM.attempt a) (ParserM.attempt b) := by
  intro s p hpaired
  have hrun := h s p hpaired
  rw [run_attempt, run_attempt]
  generalize a.run s = x at hrun ⊢
  generalize b.run p = y at hrun ⊢
  cases hrun with
  | ok hvalue hfrom => exact .ok (hsome hvalue) hfrom
  | absent hpaired hmissing hless =>
    exact .ok hnone ⟨hpaired, Nat.le_of_lt hless, hmissing,
      fun hsame => absurd hsame (Nat.ne_of_gt hless)⟩
  | dropped _ hpaired hmissing hsize =>
    exact .ok (hdropped _) ⟨hpaired, hsize, hmissing, fun _ hzero => by cases hzero⟩
  | stuck => exact .stuck

theorem ite {c : Prop} [Decidable c] {a a' b b' : ParserM σ α} (ha : Agrees drops R a a')
    (hb : Agrees drops R b b') : Agrees drops R (if c then a else b) (if c then a' else b') := by
  split
  next => exact ha
  next => exact hb

/-- Looking at the state: what is done next may depend on what both parsers have in common. -/
theorem get {f g : Parser σ → ParserM σ β}
    (hnext : ∀ s p : Parser σ, s.Paired p → Agrees drops R' (f s) (g p)) :
    Agrees drops R' (ParserM.get >>= f) (ParserM.get >>= g) :=
  fun s p hpaired => hnext s p hpaired s p hpaired

theorem announce (event : Event) {a b : ParserM σ β} (hnext : Agrees drops R' a b) :
    Agrees drops R' (ParserM.announce event >>= fun _ => a)
      (ParserM.announce event >>= fun _ => b) := by
  intro s p hpaired
  have hwritten := hpaired.write (.event event) (.event event)
  exact .of_same hwritten rfl rfl (hnext _ _ hwritten)

/-- Two parsers side by side that record the same and come out without a value. -/
theorem absent_record {s p : Parser σ} (hpaired : s.Paired p) {cause : Cause} {position : Position}
    (hcause : Diagnostic.isMissingSemicolon ⟨cause, position⟩ = false) :
    (Outcome.absent (s.record cause position)).Agrees drops R s p
      (.absent (p.record cause position)) := by
  refine .absent (hpaired.record hcause) ?_ ?_
  · rw [Parser.missing_record]
    exact Nat.le_add_right _ _
  · rw [Parser.size_record]
    exact Nat.lt_succ_self _

theorem fail {cause : Cause}
    (hcause : ∀ position, Diagnostic.isMissingSemicolon ⟨cause, position⟩ = false) :
    Agrees drops R (ParserM.fail cause : ParserM σ α) (ParserM.fail cause) := by
  intro s p hpaired
  rw [run_fail, run_fail, hpaired.current]
  exact absent_record hpaired (hcause _)

theorem nested {a b : ParserM σ α} (h : Agrees drops R a b) :
    Agrees drops R (ParserM.nested a) (ParserM.nested b) := by
  intro s p hpaired
  rw [run_nested, run_nested]
  by_cases hroom : p.depth < maxNesting
  · rw [if_pos (hpaired.depth ▸ hroom), if_pos hroom]
    have hrun := h _ _ hpaired.enterNesting
    generalize a.run _ = x at hrun ⊢
    generalize b.run _ = y at hrun ⊢
    cases hrun with
    | ok hvalue hfrom =>
      exact .ok hvalue
        ⟨hfrom.paired.leaveNesting, hfrom.size_le, hfrom.missing_le, hfrom.missing_eq⟩
    | absent hpaired hmissing hless => exact .absent hpaired.leaveNesting hmissing hless
    | dropped hdrops hpaired hmissing hsize =>
      exact .dropped hdrops hpaired.leaveNesting hmissing hsize
    | stuck => exact .stuck
  · rw [if_neg (hpaired.depth ▸ hroom), if_neg hroom, hpaired.current]
    exact absent_record hpaired rfl

variable [TokenSource σ]

theorem advance {f g : Unit → ParserM σ β} (hnext : Agrees drops R' (f ()) (g ())) :
    Agrees drops R' (ParserM.advance >>= f) (ParserM.advance >>= g) := by
  intro s p hpaired
  have hahead := hpaired.advance
  exact .of_same hahead rfl rfl (hnext _ _ hahead)

/-- Both parsers miss a token alike, unless it is a semicolon. -/
theorem expect {kind : TokenKind} {f g : Unit → ParserM σ β} (hkind : kind ≠ .semicolon)
    (hnext : Agrees drops R' (f ()) (g ())) :
    Agrees drops R' (ParserM.expect kind >>= f) (ParserM.expect kind >>= g) := by
  intro s p hpaired
  rw [run_bind, run_bind, run_expect, run_expect, hpaired.peek]
  by_cases hpeek : p.peek.kind = kind
  · rw [if_pos hpeek, if_pos hpeek]
    exact .of_same hpaired.advance rfl rfl (hnext _ _ hpaired.advance)
  · rw [if_neg hpeek, if_neg hpeek]
    refine absent_record hpaired ?_
    cases kind <;> first | rfl | exact absurd rfl hkind

end ParserM.Agrees

theorem agrees_integerOperand {R : Nat → Expression → Expression → Prop}
    (hinteger : ∀ value literal, R 0 (.integer value literal) (.integer value literal)) :
    Agrees false R (integerOperand : ParserM σ Expression) integerOperand := by
  intro s p hpaired
  change (integerOperand s).Agrees _ _ s p (integerOperand p)
  unfold integerOperand
  rw [hpaired.current]
  split
  next => exact .ok (hinteger _ _) (.of_same hpaired rfl rfl)
  next =>
    refine .ok (hinteger _ _) ⟨hpaired.record rfl, ?_, ?_, fun _ _ => ?_⟩
    · rw [Parser.size_record]
      exact Nat.le_succ _
    · rw [Parser.missing_record]
      exact Nat.le_refl _
    · rw [Parser.missing_record]
      rfl

variable [TokenSource σ]

/-- The one place where the parsers part: in front of another token than a semicolon the strict
parser records that and drops the statement. -/
theorem agrees_finishStatement {R : Nat → Expression → Expression → Prop}
    {value value' : Expression} (h : R 0 value value') :
    Agrees true R (finishStatement (some value) : ParserM σ Expression)
      (finishStatement (some value')) := by
  intro s p hpaired
  rw [run_finishStatement_some, run_finishStatement_some, hpaired.peek]
  have hlenient : p.options.mayEndBefore p.peek.kind = true := by
    simp [Options.mayEndBefore, hpaired.isLenient]
  rw [if_pos hlenient]
  split
  next => exact .ok h (.of_same hpaired.advance rfl rfl)
  next =>
    split
    next => exact .ok h (.of_same hpaired rfl rfl)
    next =>
      refine .dropped rfl (hpaired.recordStrict rfl) ?_ (Nat.le_refl _)
      rw [Parser.missing_record]
      exact Nat.lt_succ_self _

/-- A value that could not be read was recorded by both parsers. -/
theorem agrees_statementValue {R : Nat → Expression → Expression → Prop}
    {a b : ParserM σ Expression} (h : Agrees false R a b) :
    Agrees true R (ParserM.attempt a >>= finishStatement)
      (ParserM.attempt b >>= finishStatement) := by
  intro s p hpaired
  have hrun := h s p hpaired
  rw [run_bind, run_bind, run_attempt, run_attempt]
  generalize a.run s = x at hrun ⊢
  generalize b.run p = y at hrun ⊢
  cases hrun with
  | ok hvalue hfrom => exact .prepend hfrom (agrees_finishStatement hvalue _ _ hfrom.paired)
  | absent hpaired hmissing hless =>
    simp only [run_finishStatement_none, hpaired.peek]
    split
    next => exact .absent hpaired.advance hmissing hless
    next => exact .absent hpaired hmissing hless
  | dropped hdrops _ _ _ => cases hdrops
  | stuck => exact .stuck

/-! ## Routines -/

/-- What is read, by its category, with a number of statements left out. -/
def Category.Abridges : (category : Category) → Nat → category.Value → category.Value → Prop
  | names, count, short, full => count = 0 ∧ short = full
  | expression, count, short, full => Expression.Abridges count short full
  | operand, count, short, full => Expression.Abridges count short full
  | value, count, short, full => Expression.Abridges count short full
  | statement, count, short, full => Statement.Abridges count short full
  | attempt, count, short, full => AbridgesOption Statement.Abridges count short full
  | block, count, short, full => AbridgesBlock count short full
  | alternative, count, short, full => AbridgesAlternative count short full
  | arguments, count, short, full => AbridgesEach count short full

/-- The index counts the statements that were left out. -/
def leavingOut : Correspondence Nat where
  holds category i j short full := ∃ count, j = i + count ∧ category.Abridges count short full
  noNames := ⟨0, rfl, rfl, rfl⟩
  name := by
    rintro i j _ _ first ⟨_, rfl, rfl, rfl⟩
    exact ⟨0, rfl, rfl, rfl⟩
  identifier name := ⟨0, rfl, .identifier name⟩
  boolean value := ⟨0, rfl, .boolean value⟩
  unary := by
    rintro i _ _ _ operator ⟨count, rfl, h⟩
    exact ⟨count, rfl, .unary operator h⟩
  grouping h := h
  conditional := by
    rintro i _ _ _ _ _ _ _ _ _ ⟨j, rfl, hc⟩ ⟨k, rfl, hb⟩ ⟨l, rfl, ha⟩
    exact ⟨j + (k + l), by omega, .conditional hc hb ha⟩
  function := by
    rintro i _ _ n _ _ _ ⟨_, rfl, rfl, rfl⟩ ⟨count, rfl, h⟩
    exact ⟨count, rfl, .function n h⟩
  binary := by
    rintro i _ _ _ _ _ _ operator ⟨j, rfl, hl⟩ ⟨k, rfl, hr⟩
    exact ⟨j + k, Nat.add_assoc i j k, .binary operator hl hr⟩
  call := by
    rintro i _ _ _ _ _ _ ⟨j, rfl, hc⟩ ⟨k, rfl, ha⟩
    exact ⟨j + k, Nat.add_assoc i j k, .call hc ha⟩
  noArguments := ⟨0, rfl, .nil⟩
  argument := by
    rintro i _ _ _ _ _ _ ⟨j, rfl, he⟩ ⟨k, rfl, hrest⟩
    exact ⟨j + k, Nat.add_assoc i j k, .cons he hrest⟩
  noAlternative := ⟨0, rfl, .none⟩
  alternative := by
    rintro i _ _ _ ⟨count, rfl, h⟩
    exact ⟨count, rfl, .some h⟩
  letBinding := by
    rintro i _ _ _ name ⟨count, rfl, h⟩
    exact ⟨count, rfl, .letBinding name h⟩
  returning := by
    rintro i _ _ _ ⟨count, rfl, h⟩
    exact ⟨count, rfl, .returning h⟩
  expressionStatement := by
    rintro i _ _ _ ⟨count, rfl, h⟩
    exact ⟨count, rfl, .expression h⟩
  block := by
    rintro i _ _ _ ⟨count, rfl, h⟩
    exact ⟨count, rfl, .block h⟩
  noStatements := ⟨0, rfl, .nil⟩
  statements := by
    rintro i _ _ _ _ _ _ ⟨j, rfl, hfirst⟩ ⟨k, rfl, hrest⟩
    exact ⟨j + k, Nat.add_assoc i j k, .append_toList hfirst hrest⟩

/-- Agreement of a strict and a lenient parser by rules for single actions. -/
def agreeingRules (σ : Type) [TokenSource σ] : ActionRules σ σ Nat where
  values := leavingOut
  inner := id
  Relates c s i a b := Agrees c.failsLate (fun count => leavingOut.holds c s (i + count)) a b
  stuck _ _ _ := .stuck
  pure h := .pure h
  bind := by
    intro c d s t i a b f g hc h hnext
    rw [hc] at h
    refine h.bind fun count v w hvalue => ?_
    have hagrees := hnext hvalue
    simp only [Nat.add_assoc] at hagrees
    exact hagrees
  get h := .get fun s p hpaired => h s p ⟨hpaired.current, hpaired.peek, hpaired.tables⟩
  announce _ h := .announce _ h
  advance h := .advance h
  expect hkind h := .expect hkind h
  missing _ := .fail fun _ => rfl
  ite h h' := h.ite h'
  nested h := h.nested
  integer := agrees_integerOperand fun value literal => ⟨0, rfl, .integer value literal⟩
  statementValue h := agrees_statementValue h
  ofValue h hvalue := h.map fun _ _ _ => hvalue

/-- Agreement of a strict and a lenient parser as a congruence. -/
def agreeing (σ : Type) [TokenSource σ] : Congruence σ σ Nat :=
  (agreeingRules σ).congruence

theorem agreeing_statementRules : (agreeing σ).StatementRules := by
  refine (agreeingRules σ).statementRules (fun h => .announce _ h) fun h => ?_
  refine h.attempt ⟨0, rfl, .none⟩ ?_ fun w => ⟨1, rfl, .dropped w⟩
  rintro i v w ⟨count, hcount, hvalue⟩
  exact ⟨count, hcount, .some hvalue⟩

/-- Every routine agrees, with any number of steps. -/
theorem routines_agree (fuel : Nat) :
    (agreeing σ).Keeps fuel (routines fuel : Routines σ) (routines fuel) :=
  (agreeing σ).keeps_routines agreeing_statementRules fuel

/-! ## Parsing -/

theorem paired_ofSupply (supply : σ) (calls : Bool) :
    (Parser.ofSupply supply ⟨true, calls⟩).Paired (Parser.ofSupply supply ⟨false, calls⟩) :=
  ⟨rfl, rfl, rfl, rfl, rfl, rfl⟩

/-- The parsers that a strict and a lenient parse of the same tokens leave behind come side by side
after those that they started with. -/
theorem exists_pairedFrom (supply : σ) (calls : Bool) :
    ∃ (s p q t : Parser σ) (count : Nat), s.missing = 0 ∧ p.diagnostics.size = 0 ∧
      s.PairedFrom p q t count ∧
      AbridgesBlock count (parse supply ⟨true, calls⟩).program.statements
        (parse supply ⟨false, calls⟩).program.statements ∧
      (parse supply ⟨true, calls⟩).diagnostics = q.diagnostics.toList ∧
      (parse supply ⟨false, calls⟩).diagnostics = t.diagnostics.toList := by
  obtain ⟨short, q, hstrict, hprogram, hdiagnostics⟩ := parse_eq_of_statements supply ⟨true, calls⟩
  obtain ⟨full, t, hlenient, hprogram', hdiagnostics'⟩ :=
    parse_eq_of_statements supply ⟨false, calls⟩
  have hpaired := ((paired_ofSupply supply calls).write .openedProgram .openedProgram).write
    .entered .entered
  have hroutines := routines_agree (σ := σ) (Parser.ofSupply supply ⟨true, calls⟩).steps
  have hstatements := hroutines.statements (n := 0) (i := 0) .program (.of_not_counted not_false)
  have hagrees := hstatements _ _ hpaired
  have hsteps : (Parser.ofSupply supply ⟨true, calls⟩).steps =
      (Parser.ofSupply supply ⟨false, calls⟩).steps := rfl
  rw [hstrict, hsteps, hlenient] at hagrees
  rw [hprogram, hprogram', hdiagnostics, hdiagnostics']
  cases hagrees with
  | ok hholds hfrom =>
    obtain ⟨count, hcount, habridges⟩ := hholds
    rw [Nat.add_left_cancel hcount] at hfrom
    exact ⟨_, _, q, t, count, rfl, rfl, hfrom, habridges, rfl, rfl⟩

/-- A lenient parse finds no semicolon missing. -/
theorem isMissingSemicolon_of_lenient {supply : σ} {calls : Bool} {d : Diagnostic}
    (hmem : d ∈ (parse supply ⟨false, calls⟩).diagnostics) : d.isMissingSemicolon = false := by
  obtain ⟨_, _, q, t, _, -, -, hfrom, -, -, hdiagnostics⟩ := exists_pairedFrom supply calls
  rw [hdiagnostics, hfrom.paired.diagnostics] at hmem
  simpa using (List.mem_filter.1 hmem).2

/--
Strict parsing of any tokens, well-formed or not, against lenient parsing of the same tokens. The
lenient diagnostics are the strict ones without the missing semicolons; the strict program is the
lenient one with statements left out; if no semicolon is missing the programs are the same; and if
there is nothing wrong to the lenient parser and the programs are the same then nothing is wrong.
-/
theorem strict_abridges_lenient (supply : σ) (calls : Bool) :
    (parse supply ⟨false, calls⟩).diagnostics =
      (parse supply ⟨true, calls⟩).diagnostics.filter (!·.isMissingSemicolon) ∧
    (∃ count, AbridgesBlock count (parse supply ⟨true, calls⟩).program.statements
      (parse supply ⟨false, calls⟩).program.statements) ∧
    ((∀ d ∈ (parse supply ⟨true, calls⟩).diagnostics, d.isMissingSemicolon = false) →
      (parse supply ⟨true, calls⟩).program = (parse supply ⟨false, calls⟩).program) ∧
    ((parse supply ⟨false, calls⟩).diagnostics = [] →
      (parse supply ⟨true, calls⟩).program = (parse supply ⟨false, calls⟩).program →
      (parse supply ⟨true, calls⟩).diagnostics = []) := by
  obtain ⟨s, p, q, t, count, hs, hp, hfrom, habridges, hdiagnostics, hdiagnostics'⟩ :=
    exists_pairedFrom supply calls
  rw [hdiagnostics, hdiagnostics']
  have hfilter := hfrom.paired.diagnostics
  refine ⟨hfilter, ⟨count, habridges⟩, fun hnone => ?_, fun hclean hsame => ?_⟩
  · have hmissing : q.missing = 0 := List.countP_eq_zero.2 fun d hmem => by simp [hnone d hmem]
    have hcount : count = 0 := by
      have hle := hfrom.missing_le
      omega
    exact congrArg Program.mk (habridges.eq_iff.2 hcount)
  · have hcount : count = 0 := habridges.eq_iff.1 (congrArg Program.statements hsame)
    have hsize : t.diagnostics.size = 0 := by rw [← Array.length_toList, hclean]; rfl
    have hmissing : q.missing = 0 := (hfrom.missing_eq (hsize.trans hp.symm) hcount).trans hs
    rw [hclean] at hfilter
    -- every diagnostic is a missing semicolon, and there is none of these
    refine List.eq_nil_iff_forall_not_mem.2 fun d hmem => ?_
    have hkept := List.filter_eq_nil_iff.1 hfilter.symm d hmem
    exact List.countP_eq_zero.1 hmissing d hmem (by simpa using hkept)

theorem strict_abridges_lenient_samples :
    ((parseTokens (tokenize "a + ; fn(x) \x7b x \x7d; b" none) ⟨true, true⟩).diagnostics ≠ [] ∧
      (parseTokens (tokenize "a + ; fn(x) \x7b x \x7d; b" none) ⟨true, true⟩).program =
        (parseTokens (tokenize "a + ; fn(x) \x7b x \x7d; b" none) ⟨false, true⟩).program) ∧
    (parseTokens (tokenize "if (a) \x7b b; c \x7d; f(d)" none) ⟨true, true⟩).diagnostics = [] := by
  obtain ⟨-, -, hsame, -⟩ := strict_abridges_lenient
    (TokenStream.ofList (tokenize "a + ; fn(x) \x7b x \x7d; b" none)) true
  obtain ⟨-, -, -, hclean⟩ := strict_abridges_lenient
    (TokenStream.ofList (tokenize "if (a) \x7b b; c \x7d; f(d)" none)) true
  exact ⟨⟨by decide +kernel, hsame (by decide +kernel)⟩,
    hclean (by decide +kernel) (by decide +kernel)⟩

end Monkey
