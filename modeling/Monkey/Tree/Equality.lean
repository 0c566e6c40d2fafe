import Monkey.Tree.Basic

/-!
# Equality of trees

Two trees are equal when they have the same shape, names, operators, values and kept integer
texts. `Expression.same` compares by walking both trees; it decides equality
(`Expression.same_iff`), and so equality of expressions, statements and programs is decidable.
-/

namespace Monkey

mutual

/-- Whether two expressions are equal. -/
def Expression.same : Expression → Expression → Bool
  | .identifier a, .identifier b => a == b
  | .integer a la, .integer b lb => a == b && la == lb
  | .boolean a, .boolean b => a == b
  | .unary o a, .unary p b => o == p && a.same b
  | .binary a o c, .binary b p d => a.same b && o == p && c.same d
  | .conditional a t e, .conditional b u f => a.same b && sameBlock t u && sameAlternative e f
  | .function a t, .function b u => a == b && sameBlock t u
  | .call a xs, .call b ys => a.same b && sameEach xs ys
  | _, _ => false

/-- Whether two statements are equal. -/
def Statement.same : Statement → Statement → Bool
  | .letBinding n a, .letBinding m b => n == m && a.same b
  | .returning a, .returning b => a.same b
  | .expression a, .expression b => a.same b
  | .block t, .block u => sameBlock t u
  | _, _ => false

/-- Whether two lists of statements are equal. -/
def sameBlock : List Statement → List Statement → Bool
  | [], [] => true
  | s :: t, r :: u => s.same r && sameBlock t u
  | _, _ => false

/-- Whether two optional lists of statements are equal. -/
def sameAlternative : Option (List Statement) → Option (List Statement) → Bool
  | none, none => true
  | some t, some u => sameBlock t u
  | _, _ => false

/-- Whether two lists of expressions are equal. -/
def sameEach : List Expression → List Expression → Bool
  | [], [] => true
  | a :: xs, b :: ys => a.same b && sameEach xs ys
  | _, _ => false

end

mutual

/-- Comparing two expressions decides whether they are equal. -/
theorem Expression.same_iff : ∀ {a b : Expression}, a.same b = true ↔ a = b
  | .identifier _, b => by cases b <;> simp [Expression.same]
  | .integer _ _, b => by cases b <;> simp [Expression.same]
  | .boolean _, b => by cases b <;> simp [Expression.same]
  | .unary _ a, b => by cases b <;> simp [Expression.same, a.same_iff]
  | .binary a _ c, b => by
    cases b <;> simp [Expression.same, a.same_iff, c.same_iff, and_assoc]
  | .conditional a t e, b => by
    cases b <;> simp [Expression.same, a.same_iff, sameBlock_iff (t := t),
      sameAlternative_iff (e := e), and_assoc]
  | .function _ t, b => by cases b <;> simp [Expression.same, sameBlock_iff (t := t)]
  | .call a xs, b => by cases b <;> simp [Expression.same, a.same_iff, sameEach_iff (x := xs)]

theorem Statement.same_iff : ∀ {s r : Statement}, s.same r = true ↔ s = r
  | .letBinding _ a, r => by cases r <;> simp [Statement.same, a.same_iff]
  | .returning a, r => by cases r <;> simp [Statement.same, a.same_iff]
  | .expression a, r => by cases r <;> simp [Statement.same, a.same_iff]
  | .block t, r => by cases r <;> simp [Statement.same, sameBlock_iff (t := t)]

theorem sameBlock_iff : ∀ {t u : List Statement}, sameBlock t u = true ↔ t = u
  | [], u => by cases u <;> simp [sameBlock]
  | s :: t, u => by cases u <;> simp [sameBlock, s.same_iff, sameBlock_iff (t := t)]

theorem sameAlternative_iff :
    ∀ {e f : Option (List Statement)}, sameAlternative e f = true ↔ e = f
  | none, f => by cases f <;> simp [sameAlternative]
  | some t, f => by cases f <;> simp [sameAlternative, sameBlock_iff (t := t)]

theorem sameEach_iff : ∀ {x y : List Expression}, sameEach x y = true ↔ x = y
  | [], y => by cases y <;> simp [sameEach]
  | a :: xs, y => by cases y <;> simp [sameEach, a.same_iff, sameEach_iff (x := xs)]

end

instance : DecidableEq Expression := fun _ _ => decidable_of_iff _ Expression.same_iff

instance : DecidableEq Statement := fun _ _ => decidable_of_iff _ Statement.same_iff

deriving instance DecidableEq for Program

end Monkey
