import Mathlib.Data.List.Forall2
import Monkey.Proofs.Input
import Monkey.Proofs.Rounds

/-!
# Two readings side by side

Many facts about parsing compare two runs: over two supplies of the same tokens, with tokens left
out, with other options; or they say of one run that what it has recorded fits the place it stands
at. They all have the same proof: every routine keeps a relation between two parsers, as long as
each step of an action does. That proof is made here once. A `Coupling` is a relation between two
parsers for each `Stage` of reading, with the laws that the steps of actions have to obey; then all
routines keep it (`Coupling.routines`), and so does a parse (`Coupling.parse`).

A `Congruence` speaks of actions wherever they are run. Here it matters what the current token is
and what was read just before it, so every step of the walk through the routines carries that
along, and the walk is one of its own.

The first parser may run past the end of the second one's tokens. From there on the two have
nothing to do with each other, and all that is known of the first one is that it went too far
(`Coupling.gone`). The values that are read are related too (`Values`), and a level counts the
blocks around the place, for relations that depend on it.
-/

namespace Monkey

open ParserM

variable {σ τ ι α β γ δ : Type} [TokenSource σ] [TokenSource τ]

/-! ## Outcomes -/

/-- Outcomes of two actions: both with a value, or both without one; or the first has gone too far,
and then the second may have come out anyhow. -/
inductive Outcome.Coupled (gone : Parser σ → Prop) (failed post : Parser σ → Parser τ → Prop)
    (V : α → β → Prop) : Outcome σ α → Outcome τ β → Prop where
  | ok {v : α} {w : β} {p : Parser σ} {q : Parser τ} : V v w → post p q →
    Coupled gone failed post V (.ok v p) (.ok w q)
  | absent {p : Parser σ} {q : Parser τ} : failed p q →
    Coupled gone failed post V (.absent p) (.absent q)
  | gone {v : α} {p : Parser σ} {y : Outcome τ β} : gone p →
    Coupled gone failed post V (.ok v p) y
  /-- without a value it may still be recovered from, which moves on by one token -/
  | lost {p : Parser σ} {y : Outcome τ β} : gone p.advance →
    Coupled gone failed post V (.absent p) y
  | stuck {y : Outcome τ β} : Coupled gone failed post V .stuck y

namespace Outcome.Coupled

omit [TokenSource τ]

variable {gone : Parser σ → Prop} {failed failed' post post' : Parser σ → Parser τ → Prop}
  {V : α → β → Prop} {W : γ → δ → Prop} {x : Outcome σ α} {y : Outcome τ β}

theorem mono (h : x.Coupled gone failed post V y) (hfailed : ∀ p q, failed p q → failed' p q)
    (hpost : ∀ p q, post p q → post' p q) : x.Coupled gone failed' post' V y := by
  cases h with
  | ok hvalue hp => exact .ok hvalue (hpost _ _ hp)
  | absent hp => exact .absent (hfailed _ _ hp)
  | gone hp => exact .gone hp
  | lost hp => exact .lost hp
  | stuck => exact .stuck

/-- Whatever changes the parsers that are left behind and not what they see. -/
theorem mapParser {f : Parser σ → Parser σ} {g : Parser τ → Parser τ}
    (h : x.Coupled gone failed post V y) (hgone : ∀ p, gone p → gone (f p))
    (hlost : ∀ p : Parser σ, gone p.advance → gone (f p).advance)
    (hfailed : ∀ p q, failed p q → failed' (f p) (g q))
    (hpost : ∀ p q, post p q → post' (f p) (g q)) :
    (x.mapParser f).Coupled gone failed' post' V (y.mapParser g) := by
  cases h with
  | ok hvalue hp => exact .ok hvalue (hpost _ _ hp)
  | absent hp => exact .absent (hfailed _ _ hp)
  | gone hp => exact .gone (hgone _ hp)
  | lost hp => exact .lost (hlost _ hp)
  | stuck => exact .stuck

end Outcome.Coupled

/-! ## Values -/

/-- What it is for the values of two readings to be related: names, the texts of unary and of
binary operators, expressions and statements. Trees are related if their parts are, and a call also
has to be one of the values. -/
structure Values where
  /-- calls are among the values -/
  calls : Prop
  name : String → String → Prop
  sign : String → String → Prop
  operator : String → String → Prop
  expression : Expression → Expression → Prop
  statement : Statement → Statement → Prop
  identifier {n n' : String} : name n n' → expression (.identifier n) (.identifier n')
  boolean (b : Bool) : expression (.boolean b) (.boolean b)
  unary {s s' : String} {e e' : Expression} : sign s s' → expression e e' →
    expression (.unary s e) (.unary s' e')
  binary {l l' r r' : Expression} {s s' : String} : expression l l' → operator s s' →
    expression r r' → expression (.binary l s r) (.binary l' s' r')
  conditional {c c' : Expression} {b b' : List Statement} {a a' : Option (List Statement)} :
    expression c c' → List.Forall₂ statement b b' → Option.Rel (List.Forall₂ statement) a a' →
    expression (.conditional c b a) (.conditional c' b' a')
  function {n n' : List String} {b b' : List Statement} : List.Forall₂ name n n' →
    List.Forall₂ statement b b' → expression (.function n b) (.function n' b')
  call {c c' : Expression} {a a' : List Expression} : calls → expression c c' →
    List.Forall₂ expression a a' → expression (.call c a) (.call c' a')
  letBinding {n n' : String} {e e' : Expression} : name n n' → expression e e' →
    statement (.letBinding n e) (.letBinding n' e')
  returning {e e' : Expression} : expression e e' → statement (.returning e) (.returning e')
  expressionStatement {e e' : Expression} : expression e e' →
    statement (.expression e) (.expression e')

/-- Both readings have the same values. -/
def Values.same : Values where
  calls := True
  name := Eq
  sign := Eq
  operator := Eq
  expression := Eq
  statement := Eq
  identifier := by rintro _ _ rfl; rfl
  boolean _ := rfl
  unary := by rintro _ _ _ _ rfl rfl; rfl
  binary := by rintro _ _ _ _ _ _ rfl rfl rfl; rfl
  conditional := by
    rintro _ _ b b' a a' rfl hb ha
    obtain rfl : b = b' := by rwa [List.forall₂_eq_eq_eq] at hb
    cases ha with
    | none => rfl
    | some ha => rw [List.forall₂_eq_eq_eq] at ha; rw [ha]
  function := by
    intro _ _ _ _ hn hb
    rw [List.forall₂_eq_eq_eq] at hn hb
    rw [hn, hb]
  call := by
    intro _ _ _ _ _ hc ha
    rw [List.forall₂_eq_eq_eq] at ha
    rw [hc, ha]
  letBinding := by rintro _ _ _ _ rfl rfl; rfl
  returning := by rintro _ _ rfl; rfl
  expressionStatement := by rintro _ _ rfl; rfl

/-! ## Couplings -/

/-- How far the reading has come at the current token. -/
inductive Stage where
  /-- between two statements -/
  | between
  /-- nothing was made of the current token yet -/
  | facing
  /-- the current token is taken -/
  | taken
  /-- the current token is the last one of an operand -/
  | operand
  /-- something was found wrong, and is to be recovered from -/
  | failed

/-- There is more to come than the end of input: one of the two tokens in view is another one. -/
def Parser.More (p : Parser σ) : Prop :=
  p.current.kind ≠ .endOfInput ∨ p.peek.kind ≠ .endOfInput

/-- In the language an operator is that of a call only if there are calls. -/
theorem Tables.calls_of_call {options : Options} {kind : TokenKind} {precedence : Precedence}
    (h : (standard options).operator? kind = some (precedence, .call)) : options.calls = true := by
  cases hcalls : options.calls with
  | true => rfl
  | false => cases kind <;> simp [standard, standardOperator?, hcalls] at h

/-- Two parsers with the tables of the language that treat nesting and semicolons alike. -/
structure Parser.Alike (p : Parser σ) (q : Parser τ) : Prop where
  depth : p.depth = q.depth
  strict : p.options.strictSemicolons = q.options.strictSemicolons
  tables_left : p.tables = .standard p.options
  tables_right : q.tables = .standard q.options

/-- A relation between two parsers that the steps of all actions keep. -/
structure Coupling (σ τ ι : Type) [TokenSource σ] [TokenSource τ] where
  values : Values
  /-- the level of the statements in a block -/
  inner : ι → ι
  /-- the first parser has gone past what the second one has -/
  gone : Parser σ → Prop
  holds : Stage → ι → Parser σ → Parser τ → Prop
  gone_later {p p' : Parser σ} {n : Nat} : gone p → p'.window = (p.skip n).window → gone p'
  alike {i : ι} {p : Parser σ} {q : Parser τ} : holds .taken i p q → p.Alike q
  current_between {i : ι} {p : Parser σ} {q : Parser τ} : holds .between i p q →
    p.current.kind = q.current.kind
  current_taken {i : ι} {p : Parser σ} {q : Parser τ} : holds .taken i p q →
    p.current.kind = q.current.kind
  peek_taken {i : ι} {p : Parser σ} {q : Parser τ} : holds .taken i p q →
    p.peek.kind = q.peek.kind ∨ gone p.advance ∧ q.peek.kind = .endOfInput
  peek_failed {i : ι} {p : Parser σ} {q : Parser τ} : holds .failed i p q →
    p.peek.kind = q.peek.kind ∨ gone p.advance
  operator_peek {i : ι} {p : Parser σ} {q : Parser τ} : holds .operand i p q →
    p.peek.kind = q.peek.kind →
    p.tables.operator? p.peek.kind = q.tables.operator? q.peek.kind
  -- from one stage to the next, at the same token
  facing_of_between {i : ι} {p : Parser σ} {q : Parser τ} : holds .between i p q →
    p.current.kind ≠ .endOfInput → holds .facing i p q
  taken_of_facing {i : ι} {p : Parser σ} {q : Parser τ} : holds .facing i p q → holds .taken i p q
  taken_of_operand {i : ι} {p : Parser σ} {q : Parser τ} : holds .operand i p q →
    holds .taken i p q
  operand_of_facing {i : ι} {p : Parser σ} {q : Parser τ} : holds .facing i p q →
    p.current.kind ∈ [.identifier, .trueWord, .falseWord, .closeParen] → holds .operand i p q
  operand_of_block {i : ι} {p : Parser σ} {q : Parser τ} : holds .between (inner i) p q →
    Region.block.endsAt p.current.kind = true → holds .operand i p q
  -- what moves on
  advance {i : ι} {p : Parser σ} {q : Parser τ} : holds .taken i p q → p.More →
    gone p.advance ∨ holds .facing i p.advance q.advance
  next {i : ι} {p : Parser σ} {q : Parser τ} : holds .taken i p q →
    gone p.advance ∨ holds .between i p.advance q.advance
  enter {i : ι} {p : Parser σ} {q : Parser τ} : holds .taken i p q →
    p.current.kind = .openCurly → gone p.advance ∨ holds .between (inner i) p.advance q.advance
  recover {i : ι} {p : Parser σ} {q : Parser τ} : holds .failed i p q →
    gone p.advance ∨ holds .between i p.advance q.advance
  failed_advance {i : ι} {p : Parser σ} {q : Parser τ} : holds .failed i p q →
    p.peek.kind = .semicolon → q.peek.kind = .semicolon → holds .failed i p.advance q.advance
  -- what stays
  write {stage : Stage} {i : ι} {p : Parser σ} {q : Parser τ} (entry : LogEntry) :
    holds stage i p q → holds stage i (p.write entry) (q.write entry)
  deeper {i : ι} {p : Parser σ} {q : Parser τ} : holds .facing i p q → p.depth < maxNesting →
    holds .facing i { p with depth := p.depth + 1 } { q with depth := q.depth + 1 }
  leave_operand {i : ι} {p : Parser σ} {q : Parser τ} : holds .operand i p q →
    holds .operand i p.leaveNesting q.leaveNesting
  leave_failed {i : ι} {p : Parser σ} {q : Parser τ} : holds .failed i p q →
    holds .failed i p.leaveNesting q.leaveNesting
  -- what is recorded
  unexpected {i : ι} {p : Parser σ} {q : Parser τ} {kind : TokenKind} : holds .taken i p q →
    p.peek.kind = q.peek.kind → p.peek.kind ≠ kind →
    holds .failed i (p.record (.unexpectedToken kind p.peek.kind) p.peek.span.start)
      (q.record (.unexpectedToken kind q.peek.kind) q.peek.span.start)
  missing {i : ι} {p : Parser σ} {q : Parser τ} : holds .facing i p q →
    Tables.standardOperand? p.current.kind = none →
    holds .failed i (p.record (.missingOperand p.current.kind) p.current.span.start)
      (q.record (.missingOperand q.current.kind) q.current.span.start)
  tooDeep {i : ι} {p : Parser σ} {q : Parser τ} : holds .facing i p q →
    holds .failed i (p.record (.nestingTooDeep maxNesting) p.current.span.start)
      (q.record (.nestingTooDeep maxNesting) q.current.span.start)
  -- what is read off a token
  name {i : ι} {p : Parser σ} {q : Parser τ} : holds .facing i p q →
    p.current.kind = .identifier → values.name p.current.text q.current.text
  sign {i : ι} {p : Parser σ} {q : Parser τ} : holds .facing i p q →
    Tables.standardOperand? p.current.kind = some .unary →
    values.sign p.current.text q.current.text
  operator {i : ι} {p : Parser σ} {q : Parser τ} {precedence : Precedence} :
    holds .facing i p q → p.tables.operator? p.current.kind = some (precedence, .binary) →
    values.operator p.current.text q.current.text
  calls {i : ι} {p : Parser σ} {q : Parser τ} : holds .facing i p q → p.options.calls = true →
    values.calls := by intros; trivial
  integer {i : ι} {p : Parser σ} {q : Parser τ} : holds .facing i p q →
    p.current.kind = .integer →
    (integerOperand.run p).Coupled gone (holds .failed i) (holds .operand i) values.expression
      (integerOperand.run q)

namespace Coupling

variable (C : Coupling σ τ ι) {i : ι} {p : Parser σ} {q : Parser τ} {stage : Stage}
  {failed post post' : Parser σ → Parser τ → Prop} {V : α → β → Prop} {W : γ → δ → Prop}

/-- Outcomes that are coupled on a level and, with a value, leave off in a stage. -/
abbrev Couples (i : ι) (stage : Stage) (V : α → β → Prop) (x : Outcome σ α) (y : Outcome τ β) :
    Prop :=
  x.Coupled C.gone (C.holds .failed i) (C.holds stage i) V y

/-- Moving on by one token leads to a token that nothing was made of yet, or too far. -/
abbrev MovesOn (i : ι) (p : Parser σ) (q : Parser τ) : Prop :=
  C.gone p.advance ∨ C.holds .facing i p.advance q.advance

variable {C}

theorem current_facing (h : C.holds .facing i p q) : p.current.kind = q.current.kind :=
  C.current_taken (C.taken_of_facing h)

theorem alike_facing (h : C.holds .facing i p q) : p.Alike q :=
  C.alike (C.taken_of_facing h)

theorem gone_of_window {p p' : Parser σ} (h : C.gone p) (hwindow : p'.window = p.window) :
    C.gone p' :=
  C.gone_later (n := 0) h hwindow

theorem gone_advance {p : Parser σ} (h : C.gone p) : C.gone p.advance :=
  C.gone_later (n := 1) h rfl

/-! ## Rules for actions -/

/-- Once the first parser has gone too far, it stays so. -/
theorem of_gone (action : ParserM σ α) [h : Steady action] (hgone : C.gone p)
    (y : Outcome τ β) : (action.run p).Coupled C.gone failed post V y := by
  have hrun := h.keeps p
  cases out : action.run p with
  | ok value after =>
    rw [out] at hrun
    obtain ⟨count, hcount⟩ := hrun.window
    exact .gone (C.gone_later hgone hcount)
  | absent after =>
    rw [out] at hrun
    obtain ⟨count, hcount⟩ := hrun.window
    exact .lost (gone_advance (C.gone_later hgone hcount))
  | stuck => exact .stuck

theorem bind {a : ParserM σ α} {b : ParserM τ β} {f : α → ParserM σ γ} {g : β → ParserM τ δ}
    [∀ v, Steady (f v)] (h : (a.run p).Coupled C.gone failed post V (b.run q))
    (hnext : ∀ {v w p q}, V v w → post p q →
      ((f v).run p).Coupled C.gone failed post' W ((g w).run q)) :
    ((a >>= f).run p).Coupled C.gone failed post' W ((b >>= g).run q) := by
  rw [run_bind, run_bind]
  generalize a.run p = x at h ⊢
  generalize b.run q = y at h ⊢
  cases h with
  | ok hvalue hp => exact hnext hvalue hp
  | absent hp => exact .absent hp
  | gone hp => exact of_gone (f _) hp _
  | lost hp => exact .lost hp
  | stuck => exact .stuck

/-- What only makes a value of another one. -/
theorem map {a : ParserM σ α} {b : ParserM τ β} {f : α → γ} {g : β → δ}
    (h : (a.run p).Coupled C.gone failed post V (b.run q))
    (hvalue : ∀ {v w}, V v w → W (f v) (g w)) :
    ((a >>= fun v => Pure.pure (f v)).run p).Coupled C.gone failed post W
      ((b >>= fun w => Pure.pure (g w)).run q) := by
  refine bind h fun hv hp => ?_
  exact .ok (hvalue hv) hp

/-- What goes on whether there is a value or not. -/
theorem attempt {a : ParserM σ α} {b : ParserM τ β} {f : Option α → ParserM σ γ}
    {g : Option β → ParserM τ δ} [∀ v, Steady (f v)] (h : C.Couples i stage V (a.run p) (b.run q))
    (hsome : ∀ {v w p q}, V v w → C.holds stage i p q →
      ((f (some v)).run p).Coupled C.gone failed post W ((g (some w)).run q))
    (hnone : ∀ {p q}, C.holds .failed i p q →
      ((f none).run p).Coupled C.gone failed post W ((g none).run q))
    (hlost : ∀ {p : Parser σ} {y}, C.gone p.advance →
      ((f none).run p).Coupled C.gone failed post W y) :
    ((ParserM.attempt a >>= f).run p).Coupled C.gone failed post W
      ((ParserM.attempt b >>= g).run q) := by
  rw [run_bind, run_bind, run_attempt, run_attempt]
  generalize a.run p = x at h ⊢
  generalize b.run q = y at h ⊢
  cases h with
  | ok hvalue hp => exact hsome hvalue hp
  | absent hp => exact hnone hp
  | gone hp => exact of_gone (f _) hp _
  | lost hp => exact hlost hp
  | stuck => exact .stuck

theorem current_bind {f : Token → ParserM σ γ} {g : Token → ParserM τ δ}
    (h : ((f p.current).run p).Coupled C.gone failed post W ((g q.current).run q)) :
    ((current >>= f).run p).Coupled C.gone failed post W ((current >>= g).run q) :=
  h

theorem announce_bind {event : Event} {f : Unit → ParserM σ γ} {g : Unit → ParserM τ δ}
    (h : ((f ()).run (p.write (.event event))).Coupled C.gone failed post W
      ((g ()).run (q.write (.event event)))) :
    ((announce event >>= f).run p).Coupled C.gone failed post W ((announce event >>= g).run q) :=
  h

/-- Moving on, unless that is one token too far. -/
theorem moved {f : Unit → ParserM σ γ} {g : Unit → ParserM τ δ} [Steady (f ())] {next : Prop}
    (h : C.gone p.advance ∨ next)
    (hnext : next →
      ((f ()).run p.advance).Coupled C.gone failed post W ((g ()).run q.advance)) :
    ((ParserM.advance >>= f).run p).Coupled C.gone failed post W
      ((ParserM.advance >>= g).run q) := by
  rcases h with hgone | hahead
  · exact of_gone (f ()) hgone _
  · exact hnext hahead

theorem advance_bind {f : Unit → ParserM σ γ} {g : Unit → ParserM τ δ} [Steady (f ())]
    (h : C.holds .taken i p q) (hmore : p.More)
    (hnext : C.holds .facing i p.advance q.advance →
      ((f ()).run p.advance).Coupled C.gone failed post W ((g ()).run q.advance)) :
    ((ParserM.advance >>= f).run p).Coupled C.gone failed post W
      ((ParserM.advance >>= g).run q) :=
  moved (C.advance h hmore) hnext

/-- What is behind the current token is expected to be of a kind. -/
theorem expect {kind : TokenKind} {f : Unit → ParserM σ γ} {g : Unit → ParserM τ δ}
    [Steady (f ())] (hkind : kind ≠ .endOfInput) (h : C.holds .taken i p q)
    (hnext : C.holds .facing i p.advance q.advance → p.advance.current.kind = kind →
      ((f ()).run p.advance).Coupled C.gone (C.holds .failed i) post W
        ((g ()).run q.advance)) :
    ((ParserM.expect kind >>= f).run p).Coupled C.gone (C.holds .failed i) post W
      ((ParserM.expect kind >>= g).run q) := by
  rw [run_bind, run_expect]
  by_cases hp : p.peek.kind = kind
  · rw [if_pos hp]
    rcases C.advance h (.inr (hp ▸ hkind)) with hgone | hfacing
    · exact of_gone (f ()) hgone _
    · rcases C.peek_taken h with hpeek | ⟨hgone, -⟩
      · rw [run_bind, run_expect, if_pos (hpeek ▸ hp)]
        exact hnext hfacing hp
      · exact of_gone (f ()) hgone _
  · rw [if_neg hp]
    rcases C.peek_taken h with hpeek | ⟨hgone, -⟩
    · rw [run_bind, run_expect, if_neg (hpeek ▸ hp)]
      exact .absent (C.unexpected h hpeek hp)
    · exact .lost (gone_of_window hgone rfl)

/-- A token that may or may not be there and, if it is, is taken. -/
theorem ifPeek {kind : TokenKind} {f : Unit → ParserM σ γ} {g : Unit → ParserM τ δ}
    {a : ParserM σ γ} {b : ParserM τ δ} [Steady (f ())] (hkind : kind ≠ .endOfInput)
    (h : C.holds .taken i p q)
    (hthere : C.holds .facing i p.advance q.advance → p.advance.current.kind = kind →
      ((f ()).run p.advance).Coupled C.gone failed post W ((g ()).run q.advance))
    (hlacking : (a.run p).Coupled C.gone failed post W (b.run q)) :
    ((peekIs kind >>= fun there => if there = true then ParserM.advance >>= f else a).run
        p).Coupled C.gone failed post W
      ((peekIs kind >>= fun there => if there = true then ParserM.advance >>= g else b).run q) := by
  rw [run_bind, run_bind, run_peekIs, run_peekIs]
  simp only [decide_eq_true_eq]
  by_cases hp : p.peek.kind = kind
  · rw [if_pos hp]
    rcases C.peek_taken h with hpeek | ⟨hgone, -⟩
    · rw [if_pos (hpeek ▸ hp)]
      exact advance_bind h (.inr (hp ▸ hkind)) fun hfacing => hthere hfacing hp
    · exact of_gone (f ()) hgone _
  · have hq : q.peek.kind ≠ kind := by
      rcases C.peek_taken h with hpeek | ⟨-, hend⟩
      · exact hpeek ▸ hp
      · exact hend ▸ hkind.symm
    rw [if_neg hp, if_neg hq]
    exact hlacking

/-- One level of nesting further in. -/
theorem nested {a : ParserM σ α} {b : ParserM τ β} (h : C.holds .facing i p q)
    (hinner : p.depth < maxNesting →
      C.Couples i .operand V (a.run { p with depth := p.depth + 1 })
        (b.run { q with depth := q.depth + 1 })) :
    C.Couples i .operand V ((ParserM.nested a).run p) ((ParserM.nested b).run q) := by
  rw [run_nested, run_nested, ← (alike_facing h).depth]
  rw [← (alike_facing h).depth] at hinner
  split
  next hless =>
    exact (hinner hless).mapParser (fun _ hgone => gone_of_window hgone rfl)
      (fun _ hgone => gone_of_window hgone rfl) (fun _ _ => C.leave_failed)
      fun _ _ => C.leave_operand
  next => exact .absent (C.tooDeep h)

/-! ## Rules for tests -/

/-- A region is over for both parsers, or for none. -/
theorem unlessOver {f : ParserM σ (List Statement)} {g : ParserM τ (List Statement)}
    {R : List Statement → List Statement → Prop} (region : Region) (hp : C.holds .between i p q)
    (hover : region.endsAt p.current.kind = true → post p q) (hnil : R [] [])
    (hnext : C.holds .facing i p q → p.current.kind ≠ .endOfInput →
      (f.run p).Coupled C.gone failed post R (g.run q)) :
    ((ParserM.unlessOver region f).run p).Coupled C.gone failed post R
      ((ParserM.unlessOver region g).run q) := by
  refine current_bind ?_
  rw [← C.current_between hp]
  split
  next hends => exact .ok hnil (hover hends)
  next hends =>
    have hmore : p.current.kind ≠ .endOfInput := fun hend =>
      hends (by rw [hend]; cases region <;> rfl)
    exact hnext (C.facing_of_between hp hmore) hmore

/-- The current token is looked up as an operand. -/
theorem byOperand {f : OperandRule → ParserM σ Expression} {g : OperandRule → ParserM τ Expression}
    (limit : Precedence) (hp : C.holds .facing i p q)
    (hnext : ∀ {rule : OperandRule} {p : Parser σ} {q : Parser τ}, C.holds .facing i p q →
      Tables.standardOperand? p.current.kind = some rule →
      C.Couples i .operand C.values.expression ((f rule).run p) ((g rule).run q)) :
    C.Couples i .operand C.values.expression ((ParserM.byOperand limit f).run p)
      ((ParserM.byOperand limit g).run q) := by
  have hwrite := C.write (.event (.expression p.current.kind limit)) hp
  unfold ParserM.byOperand
  rw [run_bind, run_get, run_bind, run_get]
  simp only
  rw [run_bind, run_announce, run_bind, run_announce]
  simp only
  rw [(alike_facing hp).tables_left, (alike_facing hp).tables_right]
  simp only [Tables.standard]
  rw [← current_facing hp]
  cases hrule : Tables.standardOperand? p.current.kind with
  | none =>
    have hfailed := C.missing hwrite hrule
    rw [← current_facing hwrite] at hfailed
    exact .absent hfailed
  | some rule => exact hnext hwrite hrule

/-- The token behind the current one is looked up as an operator, and moved on to. -/
theorem byOperator {f : Precedence → OperatorRule → ParserM σ Expression}
    {g : Precedence → OperatorRule → ParserM τ Expression}
    [∀ precedence rule, Steady (f precedence rule)] (limit : Precedence) {left left' : Expression}
    (hp : C.holds .operand i p q) (hleft : C.values.expression left left')
    (hnext : ∀ {precedence : Precedence} {rule : OperatorRule}, C.holds .facing i p.advance
      q.advance → p.advance.tables.operator? p.advance.current.kind = some (precedence, rule) →
      C.Couples i .operand C.values.expression ((f precedence rule).run p.advance)
        ((g precedence rule).run q.advance)) :
    C.Couples i .operand C.values.expression
      ((ParserM.byOperator limit left fun precedence rule =>
        ParserM.advance >>= fun _ => f precedence rule).run p)
      ((ParserM.byOperator limit left' fun precedence rule =>
        ParserM.advance >>= fun _ => g precedence rule).run q) := by
  unfold ParserM.byOperator
  rw [run_bind, run_get, run_bind, run_get]
  simp only
  rcases C.peek_taken (C.taken_of_operand hp) with hpeek | ⟨hgone, hend⟩
  · rw [← C.operator_peek hp hpeek, ← hpeek]
    cases hrule : p.tables.operator? p.peek.kind with
    | none => exact .ok hleft hp
    | some entry =>
      obtain ⟨precedence, rule⟩ := entry
      simp only
      have hmore : p.peek.kind ≠ .endOfInput := fun hend => by
        rw [hend, (C.alike (C.taken_of_operand hp)).tables_left] at hrule
        cases hrule
      split
      next => exact advance_bind (C.taken_of_operand hp) (.inr hmore) fun hp => hnext hp hrule
      next => exact .ok hleft hp
  · -- nothing goes on at the end of the second parser's tokens
    have hnone : q.tables.operator? q.peek.kind = none := by
      rw [hend, (C.alike (C.taken_of_operand hp)).tables_right]
      rfl
    rw [hnone]
    cases p.tables.operator? p.peek.kind with
    | none => exact .ok hleft hp
    | some entry =>
      obtain ⟨precedence, rule⟩ := entry
      simp only
      split
      next => exact of_gone (f precedence rule) hgone _
      next => exact .ok hleft hp

end Coupling

/-! ## Statements -/

/-- Routines of two parsers that keep a coupling. -/
structure Coupling.Keeps (C : Coupling σ τ ι) (r : Routines σ) (r' : Routines τ) : Prop where
  expression {i : ι} {p : Parser σ} {q : Parser τ} (limit : Precedence)
    (h : C.holds .facing i p q) :
    C.Couples i .operand C.values.expression ((r.expression limit).run p)
      ((r'.expression limit).run q)
  operators {i : ι} {p : Parser σ} {q : Parser τ} (limit : Precedence) {left left' : Expression}
    (h : C.holds .operand i p q) (hleft : C.values.expression left left') :
    C.Couples i .operand C.values.expression ((r.operators limit left).run p)
      ((r'.operators limit left').run q)
  parameters {i : ι} {p : Parser σ} {q : Parser τ} (h : C.holds .taken i p q) :
    C.Couples i .taken (List.Forall₂ C.values.name) (r.parameters.run p) (r'.parameters.run q)
  arguments {i : ι} {p : Parser σ} {q : Parser τ} (h : C.holds .taken i p q) :
    C.Couples i .taken (List.Forall₂ C.values.expression) (r.arguments.run p)
      (r'.arguments.run q)
  statement {i : ι} {p : Parser σ} {q : Parser τ} (h : C.holds .facing i p q) :
    C.Couples i .taken C.values.statement (r.statement.run p) (r'.statement.run q)
  statements {i : ι} {p : Parser σ} {q : Parser τ} (region : Region)
    (h : C.holds .between i p q) :
    ((r.statements region).run p).Coupled C.gone (fun _ _ => False)
      (fun p q => C.holds .between i p q ∧ region.endsAt p.current.kind = true)
      (List.Forall₂ C.values.statement) ((r'.statements region).run q)

namespace Coupling

variable {C : Coupling σ τ ι} {i : ι} {p : Parser σ} {q : Parser τ}

/-- The end of a statement that has its value. -/
theorem finishStatement {v w : Expression} (h : C.holds .taken i p q)
    (hvalue : C.values.expression v w) :
    C.Couples i .taken C.values.expression ((Monkey.finishStatement (some v)).run p)
      ((Monkey.finishStatement (some w)).run q) := by
  rw [run_finishStatement_some, run_finishStatement_some]
  have hmay (kind : TokenKind) : p.options.mayEndBefore kind = q.options.mayEndBefore kind := by
    rw [Options.mayEndBefore, (C.alike h).strict, Options.mayEndBefore]
  rcases C.peek_taken h with hpeek | ⟨hgone, hend⟩
  · rw [hmay, ← hpeek]
    split
    next hsemicolon =>
      rcases C.advance h (.inr (hsemicolon ▸ by decide)) with hgone | hfacing
      · exact .gone hgone
      · exact .ok hvalue (C.taken_of_facing hfacing)
    next hsemicolon =>
      split
      next => exact .ok hvalue h
      next =>
        have hfailed := C.unexpected h hpeek hsemicolon
        rw [← hpeek] at hfailed
        exact .absent hfailed
  · -- the second parser is at the end of its tokens, so its statement may end here
    have hq : q.options.mayEndBefore q.peek.kind = true := by
      rw [hend, Options.mayEndBefore]
      simp
    rw [if_neg (c := q.peek.kind = .semicolon) (by rw [hend]; decide), if_pos hq]
    split
    next => exact .gone hgone
    next =>
      split
      next => exact .ok hvalue h
      next => exact .lost (gone_of_window hgone rfl)

/-- The end of a statement that has no value. -/
theorem finishStatement_none (h : C.holds .failed i p q) :
    C.Couples i .taken C.values.expression ((Monkey.finishStatement none).run p)
      ((Monkey.finishStatement none).run q) := by
  rw [run_finishStatement_none, run_finishStatement_none]
  rcases C.peek_failed h with hpeek | hgone
  · rw [← hpeek]
    split
    next hsemicolon => exact .absent (C.failed_advance h hsemicolon (hpeek ▸ hsemicolon))
    next => exact .absent h
  · split
    next => exact .lost (gone_advance hgone)
    next => exact .lost hgone

namespace Keeps

variable {r : Routines σ} {r' : Routines τ}

theorem statementValue (h : C.Keeps r r') (hp : C.holds .facing i p q) :
    C.Couples i .taken C.values.expression (r.statementValue.run p) (r'.statementValue.run q) := by
  refine attempt (h.expression .lowest hp) (fun hvalue hp => ?_) finishStatement_none ?_
  · exact finishStatement (C.taken_of_operand hp) hvalue
  · intro p y hgone
    rw [run_finishStatement_none]
    split
    next => exact .lost (gone_advance hgone)
    next => exact .lost hgone

theorem expressionStatement (h : C.Keeps r r') (hp : C.holds .facing i p q) :
    C.Couples i .taken C.values.statement (r.expressionStatement.run p)
      (r'.expressionStatement.run q) :=
  map (h.statementValue hp) C.values.expressionStatement

variable [r.Steady]

theorem letBinding (h : C.Keeps r r') (hp : C.holds .facing i p q) :
    C.Couples i .taken C.values.statement (r.letBinding.run p) (r'.letBinding.run q) := by
  refine expect (by decide) (C.taken_of_facing hp) fun hp hname => ?_
  refine current_bind ?_
  have hrelated := C.name hp hname
  refine expect (by decide) (C.taken_of_facing hp) fun hp hassign => ?_
  refine advance_bind (C.taken_of_facing hp) (.inl (hassign ▸ by decide)) fun hp => ?_
  exact map (h.statementValue hp) fun hvalue => C.values.letBinding hrelated hvalue

theorem returning (h : C.Keeps r r') (hp : C.MovesOn i p q) :
    C.Couples i .taken C.values.statement (r.returning.run p) (r'.returning.run q) := by
  refine moved hp fun hp => ?_
  exact map (h.statementValue hp) C.values.returning

/-- A block from behind its opening brace on. -/
theorem blockBody (h : C.Keeps r r')
    (hp : C.gone (p.write (.event .block)).advance ∨ C.holds .between (C.inner i)
      (p.write (.event .block)).advance (q.write (.event .block)).advance) :
    C.Couples i .operand (List.Forall₂ C.values.statement) (r.block.run p) (r'.block.run q) := by
  refine announce_bind (moved hp fun hbetween => ?_)
  refine (h.statements .block hbetween).mono (fun _ _ => False.elim) fun p q hends => ?_
  exact C.operand_of_block hends.1 hends.2

theorem block (h : C.Keeps r r') (hp : C.holds .taken i p q)
    (hopen : p.current.kind = .openCurly) :
    C.Couples i .operand (List.Forall₂ C.values.statement) (r.block.run p) (r'.block.run q) := by
  have hannounced := C.write (.event .block) hp
  exact h.blockBody (C.enter hannounced hopen)

theorem statementStep (h : C.Keeps r r') (hp : C.holds .facing i p q) :
    C.Couples i .taken C.values.statement (r.statementStep.run p) (r'.statementStep.run q) := by
  have hwrite := C.write (.event (.statement p.current.kind)) hp
  unfold Routines.statementStep
  rw [run_bind, run_get, run_bind, run_get]
  simp only
  rw [run_bind, run_announce, run_bind, run_announce]
  simp only
  rw [(alike_facing hp).tables_left, (alike_facing hp).tables_right]
  simp only [Tables.standard]
  rw [← current_facing hp]
  cases hrule : Tables.standardStatement? p.current.kind with
  | none => exact h.expressionStatement hwrite
  | some rule =>
    have hmore : p.current.kind ≠ .endOfInput := fun hend => by rw [hend] at hrule; cases hrule
    cases rule with
    | letBinding => exact h.letBinding hwrite
    | returning => exact h.returning (C.advance (C.taken_of_facing hwrite) (.inl hmore))
    | _ => cases hkind : p.current.kind <;> rw [hkind] at hrule <;> cases hrule

omit [r.Steady] in
/-- A statement that fails is passed, and then the parser is between two statements as well. -/
theorem statementRound (h : C.Keeps r r') (hp : C.holds .facing i p q) :
    (r.statementRound.run p).Coupled C.gone (fun _ _ => False) (C.holds .between i)
      (Option.Rel C.values.statement) (r'.statementRound.run q) := by
  refine attempt (h.statement hp) (fun hvalue hp => ?_) (fun hp => ?_) fun hgone => ?_
  · exact moved (C.next hp) fun hp => .ok (.some hvalue) hp
  · exact moved (C.recover hp) fun hp => .ok .none hp
  · exact .gone hgone

/-- A statement and all that are behind it. -/
theorem furtherStatements (h : C.Keeps r r') (region : Region) (hp : C.holds .facing i p q) :
    ((r.statementRound >>= fun statement => r.statements region >>= fun rest =>
      Pure.pure (statement.toList ++ rest)).run p).Coupled C.gone (fun _ _ => False)
      (fun p q => C.holds .between i p q ∧ region.endsAt p.current.kind = true)
      (List.Forall₂ C.values.statement)
      ((r'.statementRound >>= fun statement => r'.statements region >>= fun rest =>
        Pure.pure (statement.toList ++ rest)).run q) := by
  refine bind (h.statementRound hp) fun hstatement hp => ?_
  refine map (h.statements region hp) fun hrest => List.rel_append ?_ hrest
  cases hstatement with
  | some hvalue => exact .cons hvalue .nil
  | none => exact .nil

theorem statementsStep (h : C.Keeps r r') (region : Region) (hp : C.holds .between i p q) :
    ((r.statementsStep region).run p).Coupled C.gone (fun _ _ => False)
      (fun p q => C.holds .between i p q ∧ region.endsAt p.current.kind = true)
      (List.Forall₂ C.values.statement) ((r'.statementsStep region).run q) := by
  rw [r.statementsStep_eq, r'.statementsStep_eq]
  exact unlessOver region hp (fun hends => ⟨hp, hends⟩) .nil fun hp _ =>
    h.furtherStatements region hp

/-! ## Expressions -/

theorem unary (h : C.Keeps r r') (hp : C.MovesOn i p q)
    (hsign : C.values.sign p.current.text q.current.text) :
    C.Couples i .operand C.values.expression (r.unary.run p) (r'.unary.run q) := by
  refine current_bind (moved hp fun hp => ?_)
  exact map (h.expression .unary hp) fun hvalue => C.values.unary hsign hvalue

/-- A closing parenthesis ends an operand. -/
theorem closeParen {f : Unit → ParserM σ γ} {g : Unit → ParserM τ δ} [Steady (f ())]
    {W : γ → δ → Prop} (hp : C.holds .taken i p q)
    (hnext : ∀ {p q}, C.holds .operand i p q →
      C.Couples i .operand W ((f ()).run p) ((g ()).run q)) :
    C.Couples i .operand W ((ParserM.expect .closeParen >>= f).run p)
      ((ParserM.expect .closeParen >>= g).run q) := by
  refine expect (by decide) hp fun hp hkind => hnext ?_
  exact C.operand_of_facing hp (by rw [hkind]; decide)

theorem grouping (h : C.Keeps r r') (hp : C.MovesOn i p q) :
    C.Couples i .operand C.values.expression (r.grouping.run p) (r'.grouping.run q) := by
  refine moved hp fun hp => ?_
  refine bind (h.expression .lowest hp) fun hvalue hp => ?_
  exact closeParen (C.taken_of_operand hp) fun hp => .ok hvalue hp

theorem alternative (h : C.Keeps r r') (hp : C.holds .operand i p q) :
    C.Couples i .operand (Option.Rel (List.Forall₂ C.values.statement)) (r.alternative.run p)
      (r'.alternative.run q) := by
  refine ifPeek (by decide) (C.taken_of_operand hp) (fun hp _ => ?_) (.ok .none hp)
  refine expect (by decide) (C.taken_of_facing hp) fun hp hopen => ?_
  exact map (h.block (C.taken_of_facing hp) hopen) fun hvalue => .some hvalue

theorem conditional (h : C.Keeps r r') (hp : C.holds .facing i p q) :
    C.Couples i .operand C.values.expression (r.conditional.run p) (r'.conditional.run q) := by
  refine expect (by decide) (C.taken_of_facing hp) fun hp hparen => ?_
  refine advance_bind (C.taken_of_facing hp) (.inl (hparen ▸ by decide)) fun hp => ?_
  refine bind (h.expression .lowest hp) fun hcondition hp => ?_
  refine expect (by decide) (C.taken_of_operand hp) fun hp _ => ?_
  refine expect (by decide) (C.taken_of_facing hp) fun hp hopen => ?_
  refine bind (h.block (C.taken_of_facing hp) hopen) fun hconsequence hp => ?_
  exact map (h.alternative hp) fun halternative =>
    C.values.conditional hcondition hconsequence halternative

theorem parameterList (h : C.Keeps r r') (hp : C.holds .taken i p q) :
    C.Couples i .taken (List.Forall₂ C.values.name) (r.parameterList.run p)
      (r'.parameterList.run q) := by
  refine ifPeek (by decide) hp (fun hp _ => .ok .nil (C.taken_of_facing hp)) ?_
  refine expect (by decide) hp fun hp hname => current_bind ?_
  have hfirst := C.name hp hname
  refine bind (h.parameters (C.taken_of_facing hp)) fun hrest hp => ?_
  exact expect (by decide) hp fun hp _ => .ok (.cons hfirst hrest) (C.taken_of_facing hp)

theorem parametersStep (h : C.Keeps r r') (hp : C.holds .taken i p q) :
    C.Couples i .taken (List.Forall₂ C.values.name) (r.parametersStep.run p)
      (r'.parametersStep.run q) := by
  refine ifPeek (by decide) hp (fun hp _ => ?_) (.ok .nil hp)
  refine expect (by decide) (C.taken_of_facing hp) fun hp hname => current_bind ?_
  have hfirst := C.name hp hname
  exact map (h.parameters (C.taken_of_facing hp)) fun hrest => .cons hfirst hrest

theorem function (h : C.Keeps r r') (hp : C.holds .facing i p q) :
    C.Couples i .operand C.values.expression (r.function.run p) (r'.function.run q) := by
  refine expect (by decide) (C.taken_of_facing hp) fun hp _ => ?_
  refine bind (h.parameterList (C.taken_of_facing hp)) fun hparameters hp => ?_
  refine expect (by decide) hp fun hp hopen => ?_
  exact map (h.block (C.taken_of_facing hp) hopen) fun hbody =>
    C.values.function hparameters hbody

theorem operandBy (h : C.Keeps r r') (hp : C.holds .facing i p q) {rule : OperandRule}
    (hrule : Tables.standardOperand? p.current.kind = some rule) :
    C.Couples i .operand C.values.expression ((r.operandBy rule).run p)
      ((r'.operandBy rule).run q) := by
  have hmore : p.current.kind ≠ .endOfInput := fun hend => by rw [hend] at hrule; cases hrule
  have hnext : C.MovesOn i p q := C.advance (C.taken_of_facing hp) (.inl hmore)
  cases rule with
  | identifier =>
    have hkind : p.current.kind = .identifier := by
      cases hkind : p.current.kind <;> rw [hkind] at hrule <;> cases hrule
    exact .ok (C.values.identifier (C.name hp hkind))
      (C.operand_of_facing hp (by rw [hkind]; decide))
  | integer =>
    exact C.integer hp <| by
      cases hkind : p.current.kind <;> rw [hkind] at hrule <;> cases hrule
  | boolean =>
    refine current_bind ?_
    rw [← current_facing hp]
    refine .ok (C.values.boolean _) (C.operand_of_facing hp ?_)
    cases hkind : p.current.kind <;> rw [hkind] at hrule <;> cases hrule <;> decide
  | unary => exact h.unary hnext (C.sign hp hrule)
  | grouping => exact h.grouping hnext
  | conditional => exact h.conditional hp
  | function => exact h.function hp

theorem binary (h : C.Keeps r r') (hp : C.MovesOn i p q) {left left' : Expression}
    (hleft : C.values.expression left left')
    (hoperator : C.values.operator p.current.text q.current.text) (precedence : Precedence) :
    C.Couples i .operand C.values.expression ((r.binary left precedence).run p)
      ((r'.binary left' precedence).run q) := by
  refine current_bind (moved hp fun hp => ?_)
  exact map (h.expression precedence hp) fun hright => C.values.binary hleft hoperator hright

theorem argumentList (h : C.Keeps r r') (hp : C.holds .taken i p q) (hnext : C.MovesOn i p q) :
    C.Couples i .operand (List.Forall₂ C.values.expression) (r.argumentList.run p)
      (r'.argumentList.run q) := by
  refine ifPeek (by decide) hp (fun hp hkind => .ok .nil ?_) ?_
  · exact C.operand_of_facing hp (by rw [hkind]; decide)
  · refine moved hnext fun hp => ?_
    refine bind (h.expression .lowest hp) fun hfirst hp => ?_
    refine bind (h.arguments (C.taken_of_operand hp)) fun hrest hp => ?_
    exact closeParen hp fun hp => .ok (.cons hfirst hrest) hp

theorem argumentsStep (h : C.Keeps r r') (hp : C.holds .taken i p q) :
    C.Couples i .taken (List.Forall₂ C.values.expression) (r.argumentsStep.run p)
      (r'.argumentsStep.run q) := by
  refine ifPeek (by decide) hp (fun hp hcomma => ?_) (.ok .nil hp)
  refine advance_bind (C.taken_of_facing hp) (.inl (hcomma ▸ by decide)) fun hp => ?_
  refine bind (h.expression .lowest hp) fun hfirst hp => ?_
  exact map (h.arguments (C.taken_of_operand hp)) fun hrest => .cons hfirst hrest

theorem operatorBy (h : C.Keeps r r') (hp : C.holds .facing i p q) {left left' : Expression}
    (hleft : C.values.expression left left') {precedence : Precedence} {rule : OperatorRule}
    (hrule : p.tables.operator? p.current.kind = some (precedence, rule)) :
    C.Couples i .operand C.values.expression ((r.operatorBy left precedence rule).run p)
      ((r'.operatorBy left' precedence rule).run q) := by
  have hmore : p.current.kind ≠ .endOfInput := fun hend => by
    rw [hend, (alike_facing hp).tables_left] at hrule
    cases hrule
  have hnext : C.MovesOn i p q := C.advance (C.taken_of_facing hp) (.inl hmore)
  cases rule with
  | binary => exact h.binary hnext hleft (C.operator hp hrule) precedence
  | call =>
    have hcalls : C.values.calls := by
      rw [(alike_facing hp).tables_left] at hrule
      exact C.calls hp (Tables.calls_of_call hrule)
    exact map (h.argumentList (C.taken_of_facing hp) hnext) fun harguments =>
      C.values.call hcalls hleft harguments

/-- An operand by its rule, and the operators behind it. -/
theorem operandAndOperators (h : C.Keeps r r') (limit : Precedence) (hp : C.holds .facing i p q)
    {rule : OperandRule} (hrule : Tables.standardOperand? p.current.kind = some rule) :
    C.Couples i .operand C.values.expression ((r.operandBy rule >>= r.operators limit).run p)
      ((r'.operandBy rule >>= r'.operators limit).run q) := by
  refine bind (h.operandBy hp hrule) fun hleft hp => ?_
  exact h.operators limit hp hleft

/-- An operator by its rule, and those behind it. -/
theorem operatorAndOperators (h : C.Keeps r r') (limit : Precedence) (hp : C.holds .facing i p q)
    {left left' : Expression} (hleft : C.values.expression left left') {precedence : Precedence}
    {rule : OperatorRule} (hrule : p.tables.operator? p.current.kind = some (precedence, rule)) :
    C.Couples i .operand C.values.expression
      ((r.operatorBy left precedence rule >>= r.operators limit).run p)
      ((r'.operatorBy left' precedence rule >>= r'.operators limit).run q) := by
  refine bind (h.operatorBy hp hleft hrule) fun hleft hp => ?_
  exact h.operators limit hp hleft

theorem operation (h : C.Keeps r r') (limit : Precedence) (hp : C.holds .facing i p q) :
    C.Couples i .operand C.values.expression ((r.operation limit).run p)
      ((r'.operation limit).run q) := by
  rw [r.operation_eq, r'.operation_eq]
  exact byOperand limit hp fun hp hrule => h.operandAndOperators limit hp hrule

theorem operatorsStep (h : C.Keeps r r') (limit : Precedence) {left left' : Expression}
    (hp : C.holds .operand i p q) (hleft : C.values.expression left left') :
    C.Couples i .operand C.values.expression ((r.operatorsStep limit left).run p)
      ((r'.operatorsStep limit left').run q) :=
  byOperator limit hp hleft fun hp hrule => h.operatorAndOperators limit hp hleft hrule

end Keeps

/-! ## Whole readings -/

/-- The routines keep every coupling, with any number of steps. -/
theorem routines (C : Coupling σ τ ι) (fuel : Nat) :
    C.Keeps (Monkey.routines fuel) (Monkey.routines fuel) := by
  induction fuel with
  | zero =>
    constructor <;> intros <;> exact .stuck
  | succ fuel ih =>
    exact ⟨fun limit hp => nested hp fun hless => ih.operation limit (C.deeper hp hless),
      ih.operatorsStep,
      ih.parametersStep, ih.argumentsStep, ih.statementStep, ih.statementsStep⟩

/-- Two parses leave coupled parsers behind and related statements, unless the first one has gone
too far. -/
theorem parse_or_gone (C : Coupling σ τ ι) {supply : σ} {supply' : τ} {options options' : Options}
    (h : C.holds .between i (.ofSupply supply options) (.ofSupply supply' options')) :
    ∃ statements p,
      ((Monkey.routines (Parser.ofSupply supply options).steps).statements .program).run
        (((Parser.ofSupply supply options).write .openedProgram).write .entered) =
          .ok statements p ∧
      (C.gone p ∨ ∃ q, C.holds .between i p q ∧
        List.Forall₂ C.values.statement (Monkey.parse supply options).program.statements
          (Monkey.parse supply' options').program.statements ∧
        (Monkey.parse supply options).diagnostics = p.diagnostics.toList ∧
        (Monkey.parse supply' options').diagnostics = q.diagnostics.toList) := by
  obtain ⟨statements, p, hrun, hprogram, hdiagnostics⟩ := parse_eq_of_statements supply options
  obtain ⟨statements', q, hrun', hprogram', hdiagnostics'⟩ :=
    parse_eq_of_statements supply' options'
  -- more steps change no answer, so both runs can be given the same number
  have hcoupled := (C.routines (max (Parser.ofSupply supply options).steps
    (Parser.ofSupply supply' options').steps)).statements .program
      (C.write .entered (C.write .openedProgram h))
  rw [run_statements_of_le (Nat.le_max_left _ _) hrun,
    run_statements_of_le (Nat.le_max_right _ _) hrun'] at hcoupled
  refine ⟨statements, p, hrun, ?_⟩
  cases hcoupled with
  | ok hvalue hpost =>
    exact .inr ⟨q, hpost.1, by rw [hprogram, hprogram']; exact hvalue, hdiagnostics, hdiagnostics'⟩
  | gone hp => exact .inl hp

/-- Where the first parser cannot go too far, two parses leave coupled parsers behind and related
statements. -/
theorem parse (C : Coupling σ τ ι) (hgone : ∀ p, ¬C.gone p) {supply : σ} {supply' : τ}
    {options options' : Options}
    (h : C.holds .between i (.ofSupply supply options) (.ofSupply supply' options')) :
    ∃ p q, C.holds .between i p q ∧
      List.Forall₂ C.values.statement (Monkey.parse supply options).program.statements
        (Monkey.parse supply' options').program.statements ∧
      (Monkey.parse supply options).diagnostics = p.diagnostics.toList ∧
      (Monkey.parse supply' options').diagnostics = q.diagnostics.toList := by
  obtain ⟨_, p, -, hcases⟩ := C.parse_or_gone h
  exact ⟨p, hcases.resolve_left (hgone p)⟩

end Coupling

end Monkey
