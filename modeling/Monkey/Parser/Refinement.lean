import Monkey.Parser.Congruence

/-!
# More steps change no answer

An action refines to another if wherever it is not stuck the other comes out the same. That is a
congruence (`refining`), so the routines over fewer steps refine to those over more
(`routines_refines`): an answer that was found does not depend on how many steps were given.
-/

namespace Monkey

open ParserM

variable {σ α β : Type}

/-- An outcome that is stuck, or else the same as the other one. -/
def Outcome.Refines (a b : Outcome σ α) : Prop :=
  a = .stuck ∨ a = b

/-- An action that comes out as the other one does, wherever it is not stuck. -/
def ParserM.Refines (a b : ParserM σ α) : Prop :=
  ∀ parser, (a.run parser).Refines (b.run parser)

/-- Routines each of which refines to the other's. -/
structure Routines.Refines (a b : Routines σ) : Prop where
  expression (limit : Precedence) : (a.expression limit).Refines (b.expression limit)
  operators (limit : Precedence) (left : Expression) :
    (a.operators limit left).Refines (b.operators limit left)
  parameters : a.parameters.Refines b.parameters
  arguments : a.arguments.Refines b.arguments
  statement : a.statement.Refines b.statement
  statements (region : Region) : (a.statements region).Refines (b.statements region)

namespace Outcome

theorem Refines.refl (a : Outcome σ α) : a.Refines a :=
  .inr rfl

/-- What is not stuck stays as it is. -/
theorem Refines.eq_of_ne_stuck {a b : Outcome σ α} (h : a.Refines b) (hne : a ≠ .stuck) : a = b :=
  h.resolve_left hne

end Outcome

namespace ParserM.Refines

theorem refl (a : ParserM σ α) : a.Refines a :=
  fun _ => .refl _

theorem of_stuck (b : ParserM σ α) : ParserM.stuck.Refines b :=
  fun _ => .inl rfl

theorem bind {a b : ParserM σ α} {f g : α → ParserM σ β} (hab : a.Refines b)
    (hfg : ∀ value, (f value).Refines (g value)) : (a >>= f).Refines (b >>= g) := by
  intro parser
  rw [run_bind, run_bind]
  rcases hab parser with h | h
  · rw [h]; exact .inl rfl
  · rw [h]
    cases b.run parser with
    | ok value parser => exact hfg value parser
    | absent parser => exact .refl _
    | stuck => exact .refl _

theorem attempt {a b : ParserM σ α} (hab : a.Refines b) :
    (ParserM.attempt a).Refines (ParserM.attempt b) := by
  intro parser
  rw [run_attempt, run_attempt]
  rcases hab parser with h | h
  · rw [h]; exact .inl rfl
  · rw [h]; exact .refl _

theorem nested {a b : ParserM σ α} (hab : a.Refines b) :
    (ParserM.nested a).Refines (ParserM.nested b) := by
  intro parser
  rw [run_nested, run_nested]
  split
  next =>
    rcases hab { parser with depth := parser.depth + 1 } with h | h
    · rw [h]; exact .inl rfl
    · rw [h]; exact .refl _
  next => exact .refl _

theorem ite {c : Prop} [Decidable c] {a b a' b' : ParserM σ α} (ha : a.Refines a')
    (hb : b.Refines b') : (if c then a else b).Refines (if c then a' else b') := by
  split
  next => exact ha
  next => exact hb

end ParserM.Refines

/-! ## Routines -/

variable [TokenSource σ]

/-- Refinement by rules for single actions: both come out with the same value, or the first is
stuck. -/
def refiningRules (σ : Type) [TokenSource σ] : ActionRules σ σ Unit where
  values := .same
  inner := id
  Relates _ _ _ a b := a.Refines b
  stuck := .refl _
  pure h := h ▸ .refl _
  bind _ h hnext := h.bind fun _ => hnext (j := ()) rfl
  get h := (ParserM.Refines.refl ParserM.get).bind fun p => h p p (.refl p)
  announce _ h := (ParserM.Refines.refl (announce _)).bind fun _ => h
  advance h := (ParserM.Refines.refl ParserM.advance).bind fun _ => h
  expect _ h := (ParserM.Refines.refl (ParserM.expect _)).bind fun _ => h
  missing _ := .refl _
  ite h h' := h.ite h'
  nested h := h.nested
  integer := .refl _
  statementValue h := h.attempt.bind fun _ => .refl _
  ofValue h hvalue := h.bind fun _ => by rw [hvalue (j := ()) rfl]; exact .refl _

/-- Refinement as a congruence. -/
def refining (σ : Type) [TokenSource σ] : Congruence σ σ Unit :=
  (refiningRules σ).congruence

theorem refining_statementRules : (refining σ).StatementRules := by
  refine (refiningRules σ).statementRules (fun h => ?_) fun h => h.attempt
  exact (ParserM.Refines.refl (announce _)).bind fun _ => h

theorem refining_affords {fuel extra unread : Nat} : (refining σ).Affords fuel extra unread :=
  (refiningRules σ).affords

namespace Routines.Refines

variable {a b : Routines σ}

omit [TokenSource σ] in
theorem of_stuck (b : Routines σ) : Routines.stuck.Refines b :=
  ⟨fun _ => .of_stuck _, fun _ _ => .of_stuck _, .of_stuck _, .of_stuck _, .of_stuck _,
    fun _ => .of_stuck _⟩

theorem keeps (h : a.Refines b) : (refining σ).Keeps 0 a b where
  expression limit _ := h.expression limit
  operators limit _ _ hleft _ := hleft ▸ h.operators limit _
  parameters _ := h.parameters
  arguments _ := h.arguments
  braces := refining_statementRules.braces fun _ => h.statements .block
  statement _ := h.statement
  statements region _ := h.statements region

theorem of_keeps {fuel : Nat} (h : (refining σ).Keeps fuel a b) : a.Refines b where
  expression limit := h.expression (n := 0) (i := ()) limit refining_affords
  operators limit _ := h.operators (n := 0) (s := ()) (i := ()) limit rfl refining_affords
  parameters := h.parameters (n := 0) (i := ()) refining_affords
  arguments := h.arguments (n := 0) (i := ()) refining_affords
  statement := h.statement (n := 0) (i := ()) refining_affords
  statements region := h.statements (n := 0) (i := ()) region refining_affords

/-- One step over routines that refine. -/
theorem step (h : a.Refines b) : a.step.Refines b.step :=
  of_keeps (h.keeps.succ refining_statementRules)

end Routines.Refines

/-- The routines over fewer steps refine to those over more. -/
theorem routines_refines {fewer more : Nat} (h : fewer ≤ more) :
    (routines fewer : Routines σ).Refines (routines more) := by
  obtain ⟨further, rfl⟩ := Nat.exists_eq_add_of_le' h
  have hstuck : (routines 0 : Routines σ).Refines (routines further) := .of_stuck _
  exact .of_keeps ((refining σ).keeps_add refining_statementRules hstuck.keeps fewer)

end Monkey
