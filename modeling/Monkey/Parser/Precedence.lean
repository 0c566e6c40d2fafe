/-!
# Precedence

How tightly operators bind, from `lowest` to `call`. The order is that of `level`.
-/

namespace Monkey

/-- Binding strengths, weakest first. -/
inductive Precedence where
  | lowest
  | equality
  | comparison
  | sum
  | product
  | unary
  | call
  deriving DecidableEq, Inhabited

namespace Precedence

/-- The rank of a binding strength. -/
def level : Precedence → Nat
  | lowest => 0
  | equality => 1
  | comparison => 2
  | sum => 3
  | product => 4
  | unary => 5
  | call => 6

/-- The name of a binding strength in the log. -/
def name : Precedence → String
  | lowest => "Lowest"
  | equality => "Equals"
  | comparison => "LessGreater"
  | sum => "Sum"
  | product => "Product"
  | unary => "Prefix"
  | call => "Call"

/-- Every binding strength, weakest first. -/
def all : List Precedence :=
  [lowest, equality, comparison, sum, product, unary, call]

theorem mem_all (precedence : Precedence) : precedence ∈ all := by
  cases precedence <;> decide

/-- The binding strength of a given name. -/
def ofName? (text : String) : Option Precedence :=
  all.find? fun precedence => precedence.name == text

instance : LT Precedence := ⟨fun a b => a.level < b.level⟩

instance : LE Precedence := ⟨fun a b => a.level ≤ b.level⟩

instance (a b : Precedence) : Decidable (a < b) := inferInstanceAs (Decidable (a.level < b.level))

instance (a b : Precedence) : Decidable (a ≤ b) := inferInstanceAs (Decidable (a.level ≤ b.level))

theorem lt_iff {a b : Precedence} : a < b ↔ a.level < b.level := Iff.rfl

theorem le_iff {a b : Precedence} : a ≤ b ↔ a.level ≤ b.level := Iff.rfl

theorem level_inj {a b : Precedence} : a.level = b.level ↔ a = b := by
  cases a <;> cases b <;> decide

end Precedence

end Monkey
