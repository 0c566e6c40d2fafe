import Mathlib.Logic.Relation
import Monkey.Proofs.Diary

/-!
# Nesting is balanced

Whatever is read, from whatever parser of the language within the limit of nesting: it ends, it ends
on the level of nesting it started on, with a value or without, and in its course the parser is
never deeper than the limit (`nesting_balanced`). So an expression that is nested too deep takes no
levels away from what is read behind it: all statements of a row start on the same level.

The level at the end is part of the frame that all routines keep, and the levels in between are read
off the diary of a watched run. The rules for operands, operators and statements may be asked for in
front of any token here, also in front of one that they are not the rules for, so they are not only
taken from the routines that look them up.
-/

namespace Monkey

open ParserM TokenSource

variable {σ α : Type} [TokenSource σ]

/-- A reading that ends, with a value or without, on the level of nesting it started on, and as its
watched run shows was never deeper than the limit. -/
structure Parser.Balances (parser : Parser σ) (plain : ParserM σ α)
    (action : Routines (Diary σ) → ParserM (Diary σ) α) : Prop where
  watched : plain.run parser = (parser.watch action).bare
  balanced : ∃ after, (parser.watch action).parser? = some after ∧ after.depth = parser.depth ∧
    ∀ moment ∈ after.supply.moments, moment.parser.depth ≤ maxNesting

/-- A statement of a row, read or passed over, leads from one parser to another. -/
def Parser.StatementRound (p p' : Parser σ) : Prop :=
  ∃ fuel statement, (routines fuel).statementRound.run p = .ok statement p'

/-! ## Rules in front of any token -/

section Rules

open Coupling

variable {level : Nat} {p : Parser σ} {q : Parser (Diary σ)} {r : Routines σ}
  {r' : Routines (Diary σ)}

/-- Without a total all stages are the same. -/
theorem Watches.of_none {stage stage' : Stage} {level' : Nat} (h : Watches none stage level p q) :
    Watches none stage' level' p q :=
  ⟨h.bare_eq, h.proper, fun _ hmem => by cases hmem⟩

theorem Watches.movesOn (h : Watches none .facing level p q) :
    (watching none).MovesOn level p q := by
  have htaken : Watches none .taken level p q := h.of_none
  exact .inr htaken.next.of_none

variable [r.Steady] (h : (watching none).Keeps r r') (hp : Watches none .facing level p q)
include h hp

theorem watching_operandBy (rule : OperandRule) :
    (watching none).Couples level .operand Eq ((r.operandBy rule).run p)
      ((r'.operandBy rule).run q) := by
  cases rule with
  | identifier =>
    refine current_bind (.ok ?_ hp.of_none)
    rw [hp.current_eq]
  | integer => exact hp.integer
  | boolean =>
    refine current_bind (.ok ?_ hp.of_none)
    rw [hp.current_eq]
  | unary => exact h.unary hp.movesOn (by rw [hp.current_eq]; rfl)
  | grouping => exact h.grouping hp.movesOn
  | conditional => exact h.conditional hp
  | function => exact h.function hp

theorem watching_operatorBy (left : Expression) (precedence : Precedence) (rule : OperatorRule) :
    (watching none).Couples level .operand Eq ((r.operatorBy left precedence rule).run p)
      ((r'.operatorBy left precedence rule).run q) := by
  cases rule with
  | binary => exact h.binary hp.movesOn rfl (by rw [hp.current_eq]; rfl) precedence
  | call =>
    exact map (h.argumentList hp.of_none hp.movesOn) fun harguments =>
      (watching none).values.call trivial rfl harguments

theorem watching_block :
    (watching none).Couples level .operand Eq (r.block.run p) (r'.block.run q) := by
  have hopened : Watches none .taken level _ _ := (hp.write (.event .block)).of_none
  have hblock := h.blockBody (i := level) (.inr hopened.next.of_none)
  exact List.forall₂_eq_eq_eq ▸ hblock

theorem watching_statementBy (rule : StatementRule) :
    (watching none).Couples level .taken Eq ((r.statementBy rule).run p)
      ((r'.statementBy rule).run q) := by
  cases rule with
  | lookup => exact h.statement hp
  | letBinding => exact h.letBinding hp
  | returning => exact h.returning hp.movesOn
  | expression => exact h.expressionStatement hp
  | block =>
    have hblock := map (W := Eq) (watching_block h hp) fun hbody => congrArg Statement.block hbody
    exact hblock.mono (fun _ _ => id) fun _ _ hp => hp.of_none

end Rules

/-! ## Balance -/

/-- A reading is balanced if it ends, keeps the level of nesting and can be watched. -/
theorem Parser.balances_of_couples {parser : Parser σ} {plain : ParserM σ α}
    {action : Routines (Diary σ) → ParserM (Diary σ) α} {stage : Stage}
    (hends : plain.run parser ≠ .stuck) (hkeeps : (plain.run parser).Keeps parser)
    (h : (watching none).Couples 0 stage Eq (plain.run parser) (parser.watch action)) :
    parser.Balances plain action := by
  generalize hplain : plain.run parser = x at hends hkeeps h
  generalize hwatch : parser.watch action = y at h
  cases h with
  | ok hvalue hp =>
    obtain ⟨rfl, hproper, -⟩ := hp
    subst hvalue
    exact ⟨by rw [hplain, hwatch]; rfl, _, by rw [hwatch]; rfl, hkeeps.depth,
      fun moment hmem => (hproper.moments moment hmem).depth⟩
  | absent hp =>
    obtain ⟨rfl, hproper, -⟩ := hp
    exact ⟨by rw [hplain, hwatch]; rfl, _, by rw [hwatch]; rfl, hkeeps.depth,
      fun moment hmem => (hproper.moments moment hmem).depth⟩
  | gone hfalse => exact hfalse.elim
  | lost hfalse => exact hfalse.elim
  | stuck => exact absurd rfl hends

theorem Parser.StatementRound.depth {p p' : Parser σ} (h : p.StatementRound p') :
    p'.depth = p.depth := by
  obtain ⟨fuel, statement, hrun⟩ := h
  have hframe := (routines_framed fuel).statementRound p
  rw [hrun] at hframe
  exact hframe.depth

/-- All statements of a row start on the same level. -/
theorem Parser.depth_of_rounds {p p' : Parser σ}
    (h : Relation.ReflTransGen Parser.StatementRound p p') : p'.depth = p.depth := by
  induction h with
  | refl => rfl
  | tail _ hround ih => exact hround.depth.trans ih

/--
From every parser of the language within the limit of nesting, every reading ends on the level it
started on, also one that fails, and never goes deeper than the limit on its way. So all statements
of a row start on the same level, whatever was wrong with those before them.
-/
theorem nesting_balanced (parser : Parser σ) (htables : parser.tables = .standard parser.options)
    (hdepth : parser.depth ≤ maxNesting) :
    (∀ limit, parser.Balances (parseExpression limit) fun r => r.expression limit) ∧
    (∀ rule, parser.Balances (parseOperand rule) fun r => r.operandBy rule) ∧
    (∀ left precedence rule, parser.Balances (parseOperator left precedence rule)
      fun r => r.operatorBy left precedence rule) ∧
    (∀ rule, parser.Balances (parseStatement rule) fun r => r.statementBy rule) ∧
    parser.Balances (withRoutines fun r => r.block) (fun r => r.block) ∧
    parser.Balances parseProgram (fun r => r.program) ∧
    ∀ later, Relation.ReflTransGen Parser.StatementRound parser later →
      later.depth = parser.depth := by
  have hkeepsEnd : parser.tables.KeepsEnd := htables ▸ Tables.keepsEnd_standard parser.options
  have hends := routines_endWithin (σ := σ) hkeepsEnd parser.steps
  have hframed : (routines parser.steps : Routines σ).Framed := routines_framed _
  have hwatched : (watching none).Keeps (routines parser.steps : Routines σ) _ :=
    routines_watched none parser.steps
  have henough := parser.steps_afford hkeepsEnd (Nat.le_refl _)
  have hvalue : (ending hkeepsEnd : Congruence σ σ Unit).Affords parser.steps 2 parser.unread :=
    henough.mono (by decide) (Nat.le_refl _)
  have hrules := ending_statementRules (σ := σ) hkeepsEnd
  have hstart {stage : Stage} : Watches none stage 0 parser parser.withDiary :=
    ⟨rfl, .withDiary htables hdepth, fun _ hmem => by cases hmem⟩
  refine ⟨fun limit => ?_, fun rule => ?_, fun left precedence rule => ?_, fun rule => ?_, ?_, ?_,
    fun later => Parser.depth_of_rounds⟩
  · have hrun := hends.expression (i := ()) limit hvalue
    exact Parser.balances_of_couples (hrun parser rfl (Nat.le_refl _)).ne_stuck
      ((hframed.expression limit).keeps parser) (hwatched.expression limit hstart)
  · have hrun := hends.operandBy (i := ()) (hvalue.mono (Nat.zero_le 2) (Nat.le_refl _))
      (hvalue.mono (Nat.le_refl 2) (Nat.sub_le _ 1)) rule
    exact Parser.balances_of_couples (hrun parser rfl (Nat.le_refl _)).ne_stuck
      ((hframed.operandBy rule).keeps parser) (watching_operandBy hwatched hstart rule)
  · have hrun := hends.operatorBy hvalue (ending_holds hkeepsEnd left) precedence rule
    exact Parser.balances_of_couples (hrun parser rfl (Nat.le_refl _)).ne_stuck
      ((hframed.operatorBy left precedence rule).keeps parser)
      (watching_operatorBy hwatched hstart left precedence rule)
  · have hrun := hends.statementBy (i := ()) hrules hvalue
      (fun _ : rule = .lookup => henough.mono (by decide) (Nat.le_refl _))
      fun _ => henough.mono (Nat.le_refl 4) (Nat.sub_le _ 1)
    exact Parser.balances_of_couples (hrun parser rfl (Nat.le_refl _)).ne_stuck
      ((hframed.statementBy rule).keeps parser) (watching_statementBy hwatched hstart rule)
  · have hrun := hends.block (i := ()) hrules (henough.mono (Nat.le_refl 4) (Nat.sub_le _ 1))
    exact Parser.balances_of_couples (hrun parser rfl (Nat.le_refl _)).ne_stuck
      (hframed.block.keeps parser) (watching_block hwatched hstart)
  · obtain ⟨program, last, hrun⟩ := parseProgram_eq_ok parser hkeepsEnd
    have hbetween : Watches none .between 0 parser _ := hstart
    have hprogram := watching_program hbetween parser.steps
    refine Parser.balances_of_couples (by rw [hrun]; exact fun h => by cases h)
      (hframed.program.keeps parser) (hprogram.mono (fun _ _ => False.elim) fun _ _ hp => hp.1)

/-- With one level left, an expression that takes two is refused, and the one behind it is not. -/
theorem nesting_balanced_sample :
    let parser : Parser TokenStream :=
      { Parser.ofSupply (TokenStream.ofList (tokenize "-a; b" none)) {} with depth := 255 }
    (parseProgram.run parser).value? = some ⟨[.expression (.identifier "b")]⟩ ∧
      ((parser.watch fun r => r.program).parser?.map fun after =>
        after.supply.moments.map (·.parser.depth)) = some [256, 256, 255, 256, 256, 255] ∧
      parser.Balances parseProgram (fun r => r.program) := by
  intro parser
  refine ⟨by decide +kernel, by decide +kernel, ?_⟩
  exact (nesting_balanced parser rfl (by decide)).2.2.2.2.2.1

end Monkey
