import Monkey.Parser.Refinement
import Monkey.Parser.Termination
import Monkey.Proofs.Frame

/-!
# Routines without a bound on their steps

More steps change no answer, so every routine has one answer that all numbers of steps agree on
that are large enough. `unbounded` are the routines that give it. Where tables keep the end of
input to itself, each of them is one step of reading over the others (`unbounded_expression` and
the equations beside it), and so a reading can be followed without counting steps.
-/

namespace Monkey

open ParserM

variable {σ α : Type}

/-- An action with as many steps as it needs; stuck where no number of steps is enough. -/
noncomputable def ParserM.settle (actions : Nat → ParserM σ α) : ParserM σ α := fun parser =>
  open Classical in
  if h : ∃ fuel, (actions fuel).run parser ≠ .stuck then (actions h.choose).run parser else .stuck

/-- An answer that was found is the settled one. -/
theorem run_settle {actions : Nat → ParserM σ α}
    (hmono : ∀ {fewer more}, fewer ≤ more → (actions fewer).Refines (actions more))
    {fuel : Nat} {parser : Parser σ} (h : (actions fuel).run parser ≠ .stuck) :
    (settle actions).run parser = (actions fuel).run parser := by
  have hex : ∃ fuel, (actions fuel).run parser ≠ .stuck := ⟨fuel, h⟩
  have hchosen : (settle actions).run parser = (actions hex.choose).run parser := dif_pos hex
  have hleft := (hmono (Nat.le_max_left fuel hex.choose) parser).eq_of_ne_stuck h
  have hright := (hmono (Nat.le_max_right fuel hex.choose) parser).eq_of_ne_stuck hex.choose_spec
  rw [hchosen, hright, hleft]

/-- A settled answer is one that was found, if there is one at all. -/
theorem run_settle_cases (actions : Nat → ParserM σ α) (parser : Parser σ) :
    (settle actions).run parser = .stuck ∨
      ∃ fuel, (settle actions).run parser = (actions fuel).run parser := by
  by_cases hex : ∃ fuel, (actions fuel).run parser ≠ .stuck
  · exact .inr ⟨hex.choose, dif_pos hex⟩
  · exact .inl (dif_neg hex)

theorem refines_settle {actions : Nat → ParserM σ α}
    (hmono : ∀ {fewer more}, fewer ≤ more → (actions fewer).Refines (actions more)) (fuel : Nat) :
    (actions fuel).Refines (settle actions) := by
  intro parser
  by_cases h : (actions fuel).run parser = .stuck
  · exact .inl h
  · exact .inr (run_settle hmono h).symm

variable [TokenSource σ]

/-- The routines with as many steps as they need. -/
noncomputable def unbounded : Routines σ where
  expression limit := settle fun fuel => (routines fuel).expression limit
  operators limit left := settle fun fuel => (routines fuel).operators limit left
  parameters := settle fun fuel => (routines fuel).parameters
  arguments := settle fun fuel => (routines fuel).arguments
  statement := settle fun fuel => (routines fuel).statement
  statements region := settle fun fuel => (routines fuel).statements region

/-- The routines over any number of steps refine to those without a bound. -/
theorem routines_refines_unbounded (fuel : Nat) :
    (routines fuel : Routines σ).Refines unbounded where
  expression limit := refines_settle (fun h => (routines_refines h).expression limit) fuel
  operators limit left := refines_settle (fun h => (routines_refines h).operators limit left) fuel
  parameters := refines_settle (fun h => (routines_refines h).parameters) fuel
  arguments := refines_settle (fun h => (routines_refines h).arguments) fuel
  statement := refines_settle (fun h => (routines_refines h).statement) fuel
  statements region := refines_settle (fun h => (routines_refines h).statements region) fuel

theorem framed_settle {actions : Nat → ParserM σ α} (h : ∀ fuel, (actions fuel).Framed) :
    (settle actions).Framed := by
  intro parser
  rcases run_settle_cases actions parser with hstuck | ⟨fuel, hfuel⟩
  · rw [hstuck]; trivial
  · rw [hfuel]; exact h fuel parser

theorem unbounded_framed : (unbounded : Routines σ).Framed where
  expression limit := framed_settle fun fuel => (routines_framed fuel).expression limit
  operators limit left := framed_settle fun fuel => (routines_framed fuel).operators limit left
  parameters := framed_settle fun fuel => (routines_framed fuel).parameters
  arguments := framed_settle fun fuel => (routines_framed fuel).arguments
  statement := framed_settle fun fuel => (routines_framed fuel).statement
  statements region := framed_settle fun fuel => (routines_framed fuel).statements region

instance : (unbounded : Routines σ).Steady :=
  ⟨unbounded_framed⟩

/-! ## One step at a time -/

/-- A routine without a bound is one step of reading over the others. -/
theorem run_settle_eq_step {actions : Nat → ParserM σ α} {step : ParserM σ α}
    (hmono : ∀ {fewer more}, fewer ≤ more → (actions fewer).Refines (actions more))
    {parser : Parser σ}
    (hends : (actions (parser.steps + 1)).EndsWithin parser.tables parser.unread)
    (hstep : (actions (parser.steps + 1)).Refines step) :
    (settle actions).run parser = step.run parser := by
  rw [run_settle hmono hends.ends.ne_stuck]
  exact (hstep parser).eq_of_ne_stuck hends.ends.ne_stuck

section Equations

variable {parser : Parser σ} (keeps : parser.tables.KeepsEnd)

/-- One step over the routines without a bound, for a number of steps that is enough. -/
theorem step_refines_unbounded :
    (routines (parser.steps + 1) : Routines σ).Refines unbounded.step :=
  (routines_refines_unbounded parser.steps).step

include keeps

/-- A number of steps that is enough for all routines on a parser, and one more. -/
theorem affords_steps {extra : Nat} (h : extra ≤ 4) :
    (ending keeps : Congruence σ σ Unit).Affords (parser.steps + 1) extra parser.unread :=
  (parser.steps_afford keeps (Nat.le_succ _)).mono h (Nat.le_refl _)

theorem endWithin_steps :
    (ending keeps).Keeps (parser.steps + 1) (routines (parser.steps + 1) : Routines σ)
      (routines (parser.steps + 1)) :=
  routines_endWithin keeps _

theorem unbounded_expression (limit : Precedence) :
    (unbounded.expression limit).run parser = (unbounded.expressionStep limit).run parser := by
  have hends := (endWithin_steps keeps).expression (i := ()) limit (affords_steps keeps (by decide))
  exact run_settle_eq_step (fun h => (routines_refines h).expression limit) hends
    (step_refines_unbounded.expression limit)

theorem unbounded_operators (limit : Precedence) (left : Expression) :
    (unbounded.operators limit left).run parser =
      (unbounded.operatorsStep limit left).run parser := by
  have hends := (endWithin_steps keeps).operators limit (ending_holds keeps left)
    (affords_steps keeps (by decide))
  exact run_settle_eq_step (fun h => (routines_refines h).operators limit left) hends
    (step_refines_unbounded.operators limit left)

theorem unbounded_parameters :
    unbounded.parameters.run parser = unbounded.parametersStep.run parser := by
  have hends := (endWithin_steps keeps).parameters (i := ()) (affords_steps keeps (by decide))
  exact run_settle_eq_step (fun h => (routines_refines h).parameters) hends
    step_refines_unbounded.parameters

theorem unbounded_arguments :
    unbounded.arguments.run parser = unbounded.argumentsStep.run parser := by
  have hends := (endWithin_steps keeps).arguments (i := ()) (affords_steps keeps (by decide))
  exact run_settle_eq_step (fun h => (routines_refines h).arguments) hends
    step_refines_unbounded.arguments

theorem unbounded_statement :
    unbounded.statement.run parser = unbounded.statementStep.run parser := by
  have hends := (endWithin_steps keeps).statement (i := ()) (affords_steps keeps (by decide))
  exact run_settle_eq_step (fun h => (routines_refines h).statement) hends
    step_refines_unbounded.statement

theorem unbounded_statements (region : Region) :
    (unbounded.statements region).run parser = (unbounded.statementsStep region).run parser := by
  have hends := (endWithin_steps keeps).statements (i := ()) region
    (affords_steps keeps (Nat.le_refl 4))
  exact run_settle_eq_step (fun h => (routines_refines h).statements region) hends
    (step_refines_unbounded.statements region)

end Equations

/-! ## The steps that a parser is given -/

/-- Reading an expression with the steps that a parser is given needs no more. -/
theorem run_parseExpression {parser : Parser σ} (keeps : parser.tables.KeepsEnd)
    (limit : Precedence) :
    (parseExpression limit).run parser = (unbounded.expression limit).run parser := by
  have henough := parser.steps_afford keeps (Nat.le_refl _)
  have hends : ((routines parser.steps).expression limit).EndsWithin parser.tables parser.unread :=
    (routines_endWithin keeps parser.steps).expression (i := ()) limit
      (henough.mono (by decide) (Nat.le_refl _))
  exact ((routines_refines_unbounded parser.steps).expression limit parser).eq_of_ne_stuck
    hends.ends.ne_stuck

end Monkey
