import Monkey.Proofs.Completeness

/-!
# Chains of operands and operators

Operands with binary operators between them can be put together in many ways. `OperatorTree` are all
of them, and `Stratified` singles out the one that precedence and association to the left ask for,
whatever the table of operators: what stands on the left of an operator binds at least as tightly,
what stands on its right binds more tightly.

A stratified tree is rebuilt from its parts, taken from left to right, by attaching each operator
as far down the right side as those above it bind less tightly (`assemble_parts`). So a chain has
exactly one stratified tree, and it belongs to the grammar of the table, which makes it the one that
is parsed. Each step to the right goes up one of the five levels of operators, so the nesting is
that of the operands and five more at most.
-/

namespace Monkey

open ParserM

/-! ## Tables of operators -/

/-- A binary operator for the tables, bound no tighter than a unary one. -/
structure Registration where
  kind : TokenKind
  precedence : Precedence
  kind_ne_end : kind ≠ .endOfInput
  kind_ne_semicolon : kind ≠ .semicolon
  lowest_lt : .lowest < precedence
  le_unary : precedence ≤ .unary

/-- Tables after some binary operators are set, one after the other. -/
def Tables.register (tables : Tables) (registrations : List Registration) : Tables :=
  registrations.foldl (fun tables r => tables.setOperator r.kind r.precedence .binary) tables

/-- Tables that are those of the language but for the operators, all of them binary. -/
structure Tables.Binary (tables : Tables) : Prop where
  statement : tables.statement? = standardStatement?
  operand : tables.operand? = standardOperand?
  operator : ∀ {kind precedence rule}, tables.operator? kind = some (precedence, rule) →
    rule = .binary ∧ 0 < precedence.level ∧ precedence.level ≤ 5
  semicolon : tables.operator? .semicolon = none
  endOfInput : tables.operator? .endOfInput = none

theorem Tables.binary_standard : (Tables.standard {}).Binary := by
  refine ⟨rfl, rfl, ?_, rfl, rfl⟩
  intro kind precedence rule hfound
  cases kind <;> cases hfound <;> decide

theorem Tables.Binary.setOperator {tables : Tables} (h : tables.Binary) (r : Registration) :
    (tables.setOperator r.kind r.precedence .binary).Binary := by
  refine ⟨h.statement, h.operand, ?_, ?_, ?_⟩
  · intro kind precedence rule hfound
    by_cases hkind : kind = r.kind
    · rw [Tables.setOperator, hkind] at hfound
      simp only [if_true, Option.some.injEq, Prod.mk.injEq] at hfound
      obtain ⟨rfl, rfl⟩ := hfound
      exact ⟨rfl, r.lowest_lt, r.le_unary⟩
    · rw [Tables.setOperator] at hfound
      simp only [hkind, if_false] at hfound
      exact h.operator hfound
  · rw [← h.semicolon]
    exact if_neg r.kind_ne_semicolon.symm
  · rw [← h.endOfInput]
    exact if_neg r.kind_ne_end.symm

theorem Tables.Binary.register {tables : Tables} (h : tables.Binary)
    (registrations : List Registration) : (tables.register registrations).Binary := by
  induction registrations generalizing tables with
  | nil => exact h
  | cons r registrations ih => exact ih (h.setOperator r)

/-- The grammar of some tables of operators. -/
def Grammar.ofTables {tables : Tables} (h : tables.Binary) : Grammar where
  level? kind := (tables.operator? kind).map (·.1.level)
  calls := false
  strict := false
  level_pos {kind level} hlevel := by
    obtain ⟨⟨precedence, rule⟩, hfound, rfl⟩ := Option.map_eq_some_iff.1 hlevel
    exact (h.operator hfound).2.1
  level_le {kind level} hlevel := by
    obtain ⟨⟨precedence, rule⟩, hfound, rfl⟩ := Option.map_eq_some_iff.1 hlevel
    exact (h.operator hfound).2.2
  level?_semicolon := by rw [h.semicolon]; rfl
  level?_endOfInput := by rw [h.endOfInput]; rfl
  level?_openParen hcalls := by cases hcalls

theorem Grammar.describes_ofTables {tables : Tables} (h : tables.Binary) :
    (ofTables h).Describes tables := by
  refine ⟨h.statement, h.operand, ?_⟩
  intro kind
  cases hfound : tables.operator? kind with
  | none => simp [operator?, ofTables, hfound]
  | some entry =>
    obtain ⟨precedence, rule⟩ := entry
    obtain ⟨rfl, -⟩ := h.operator hfound
    simp [operator?, ofTables, hfound]

theorem Grammar.level?_ofTables {tables : Tables} (h : tables.Binary) {kind : TokenKind}
    (hkind : (tables.operator? kind).isSome = true) :
    (ofTables h).level? kind = some (tables.precedence kind).level := by
  obtain ⟨entry, hfound⟩ := Option.isSome_iff_exists.1 hkind
  simp [ofTables, Tables.precedence, hfound]

/-! ## Trees -/

/-- A way to put operands and operators together. -/
inductive OperatorTree where
  | leaf (token : Token)
  | unary (operator : Token) (right : OperatorTree)
  | binary (left : OperatorTree) (operator : Token) (right : OperatorTree)

/-- A token that is an operand by itself. -/
def Token.IsOperand (token : Token) : Prop :=
  token.kind = .identifier ∨ token.kind = .trueWord ∨ token.kind = .falseWord ∨
    token.kind = .integer ∧ (Text.readInt64? token.text.toList).isSome = true

/-- A token that is a unary operator. -/
def Token.IsSign (token : Token) : Prop :=
  token.kind = .bang ∨ token.kind = .dash

theorem Token.IsSign.not_isOperand {token : Token} (h : token.IsSign) : ¬token.IsOperand := by
  rcases h with hkind | hkind <;> simp [IsOperand, hkind]

namespace OperatorTree

/-- The tokens of a tree, in order. -/
def tokens : OperatorTree → List Token
  | leaf token => [token]
  | unary operator right => operator :: right.tokens
  | binary left operator right => left.tokens ++ operator :: right.tokens

/-- The operator of a binary operation. -/
def operator? : OperatorTree → Option Token
  | binary _ operator _ => some operator
  | _ => none

/-- Whether operators bind as their precedences say, those of one precedence to the left. -/
def Stratified (tables : Tables) : OperatorTree → Prop
  | leaf token => token.IsOperand
  | unary operator right => operator.IsSign ∧ right.operator? = none ∧ right.Stratified tables
  | binary left operator right =>
    (tables.operator? operator.kind).isSome = true ∧
    (∀ inner ∈ left.operator?,
      tables.precedence operator.kind ≤ tables.precedence inner.kind) ∧
    (∀ inner ∈ right.operator?,
      tables.precedence operator.kind < tables.precedence inner.kind) ∧
    left.Stratified tables ∧ right.Stratified tables

/-- A tree as a phrase of the grammar. -/
def phrase : OperatorTree → Phrase
  | leaf token =>
    match token.kind with
    | .identifier => .identifier token
    | .trueWord => .boolean token true
    | .falseWord => .boolean token false
    | _ => .integer token ((Text.readInt64? token.text.toList).getD 0)
  | unary operator right => .unary operator right.phrase
  | binary left operator right => .binary left.phrase operator right.phrase

/-- The expression that a tree stands for. -/
def expression : OperatorTree → Expression
  | leaf token =>
    match token.kind with
    | .identifier => .identifier token.text
    | .trueWord => .boolean true
    | .falseWord => .boolean false
    | _ => .integer ((Text.readInt64? token.text.toList).getD 0) token.text
  | unary operator right => .unary operator.text right.expression
  | binary left operator right => .binary left.expression operator.text right.expression

theorem tree_phrase (tree : OperatorTree) : tree.phrase.tree = tree.expression := by
  induction tree with
  | leaf token => unfold phrase expression; split <;> rfl
  | unary operator right ih => rw [phrase, Phrase.tree, ih, expression]
  | binary left operator right ihl ihr => rw [phrase, Phrase.tree, ihl, ihr, expression]

theorem tokens_phrase (tree : OperatorTree) : tree.phrase.tokens = tree.tokens := by
  induction tree with
  | leaf token => unfold phrase; split <;> rfl
  | unary operator right ih => rw [phrase, Phrase.tokens, ih, tokens]
  | binary left operator right ihl ihr => rw [phrase, Phrase.tokens, ihl, ihr, tokens]

/-! ## Levels -/

section Levels

variable {tables : Tables}

/-- The level of the operator of a binary operation; operands are above all operators. -/
def rank (tables : Tables) : OperatorTree → Nat
  | binary _ operator _ => (tables.precedence operator.kind).level
  | _ => 6

theorem rank_of_operator?_eq_none {tree : OperatorTree} (h : tree.operator? = none) :
    tree.rank tables = 6 := by
  cases tree with
  | binary left operator right => cases h
  | _ => rfl

theorem le_rank_iff {tree : OperatorTree} {precedence : Precedence} (hle : precedence.level ≤ 5) :
    (∀ inner ∈ tree.operator?, precedence ≤ tables.precedence inner.kind) ↔
      precedence.level ≤ tree.rank tables := by
  cases tree with
  | binary left operator right => simp [operator?, rank, Precedence.le_iff]
  | _ => simp [operator?, rank]; omega

theorem lt_rank_iff {tree : OperatorTree} {precedence : Precedence} (hle : precedence.level ≤ 5) :
    (∀ inner ∈ tree.operator?, precedence < tables.precedence inner.kind) ↔
      precedence.level < tree.rank tables := by
  cases tree with
  | binary left operator right => simp [operator?, rank, Precedence.lt_iff]
  | _ => simp [operator?, rank]; omega

theorem level_precedence_le (h : tables.Binary) (kind : TokenKind) :
    (tables.precedence kind).level ≤ 5 := by
  unfold Tables.precedence
  cases hfound : tables.operator? kind with
  | none => exact Nat.zero_le 5
  | some entry => exact (h.operator hfound).2.2

theorem level_phrase (h : tables.Binary) {tree : OperatorTree} (hs : tree.Stratified tables) :
    tree.phrase.level (.ofTables h) = tree.rank tables := by
  cases tree with
  | leaf token => unfold phrase; split <;> rfl
  | unary operator right => rfl
  | binary left operator right =>
    rw [phrase, Phrase.level, Grammar.level?_ofTables h hs.1]
    rfl

/-- A stratified tree is a phrase of the grammar of its tables, in front of anything. -/
theorem Stratified.fits (h : tables.Binary) {tree : OperatorTree} (hs : tree.Stratified tables)
    (next : TokenKind) : tree.phrase.Fits (.ofTables h) next := by
  induction tree generalizing next with
  | leaf token =>
    rcases hs with hkind | hkind | hkind | ⟨hkind, hvalue⟩
    · simp only [phrase, hkind]
      exact hkind
    · simp only [phrase, hkind]
      exact hkind
    · simp only [phrase, hkind]
      exact hkind
    · obtain ⟨value, hvalue⟩ := Option.isSome_iff_exists.1 hvalue
      simp only [phrase, hkind, hvalue]
      exact ⟨hkind, Text.readDecimal?_of_readInt64? hvalue⟩
  | unary operator right ih =>
    obtain ⟨hsign, hnone, hright⟩ := hs
    have hlevel : right.phrase.level (.ofTables h) = 6 := by
      rw [level_phrase h hright, rank_of_operator?_eq_none hnone]
    exact ⟨hsign, Nat.le_of_eq hlevel.symm, ih hright next⟩
  | binary left operator right ihl ihr =>
    obtain ⟨hkind, hl, hr, hleft, hright⟩ := hs
    have hle := level_precedence_le h operator.kind
    rw [le_rank_iff hle, ← level_phrase h hleft] at hl
    rw [lt_rank_iff hle, ← level_phrase h hright] at hr
    exact ⟨_, Grammar.level?_ofTables h hkind, Phrase.le_reach hle hl, ihl hleft _, hr,
      ihr hright next⟩

theorem closed_phrase (tree : OperatorTree) : tree.phrase.closed = true := by
  induction tree with
  | leaf token => unfold phrase; split <;> rfl
  | unary operator right ih => exact ih
  | binary left operator right ihl ihr => exact ihr

end Levels

/-! ## Taking trees apart -/

/-- The first operand of a tree, and the further ones behind their operators, from left to right. -/
def parts : OperatorTree → OperatorTree × List (Token × OperatorTree)
  | binary left operator right =>
    (left.parts.1, left.parts.2 ++ (operator, right.parts.1) :: right.parts.2)
  | tree => (tree, [])

/-- The tokens of further operands behind their operators. -/
def spell (further : List (Token × OperatorTree)) : List Token :=
  further.flatMap fun (operator, operand) => operator :: operand.tokens

theorem tokens_parts (tree : OperatorTree) :
    tree.parts.1.tokens ++ spell tree.parts.2 = tree.tokens := by
  induction tree with
  | leaf token => rfl
  | unary operator right ih => simp [parts, spell]
  | binary left operator right ihl ihr =>
    rw [tokens, ← ihl, ← ihr]
    simp [parts, spell]

/-- An operand of a chain: a stratified tree without a binary operator. -/
structure IsOperand (tables : Tables) (tree : OperatorTree) : Prop where
  operator : tree.operator? = none
  stratified : tree.Stratified tables

section Parts

variable {tables : Tables}

theorem parts_of_isOperand {tree : OperatorTree} (h : tree.operator? = none) :
    tree.parts = (tree, []) := by
  cases tree with
  | binary left operator right => cases h
  | _ => rfl

theorem Stratified.isOperand_parts {tree : OperatorTree} (hs : tree.Stratified tables) :
    tree.parts.1.IsOperand tables ∧ ∀ pair ∈ tree.parts.2, pair.2.IsOperand tables := by
  induction tree with
  | leaf token => exact ⟨⟨rfl, hs⟩, by simp [parts]⟩
  | unary operator right ih => exact ⟨⟨rfl, hs⟩, by simp [parts]⟩
  | binary left operator right ihl ihr =>
    obtain ⟨-, -, -, hleft, hright⟩ := hs
    obtain ⟨hfirst, hfurther⟩ := ihl hleft
    obtain ⟨hfirst', hfurther'⟩ := ihr hright
    refine ⟨hfirst, ?_⟩
    intro pair hmem
    rcases List.mem_append.1 hmem with hmem | hmem
    · exact hfurther pair hmem
    · rcases List.mem_cons.1 hmem with rfl | hmem
      · exact hfirst'
      · exact hfurther' pair hmem

/-- No operator of a stratified tree binds less tightly than that of the whole. -/
theorem Stratified.rank_le (h : tables.Binary) {tree : OperatorTree}
    (hs : tree.Stratified tables) :
    ∀ pair ∈ tree.parts.2, tree.rank tables ≤ (tables.precedence pair.1.kind).level := by
  induction tree with
  | leaf token => simp [parts]
  | unary operator right ih => simp [parts]
  | binary left operator right ihl ihr =>
    obtain ⟨-, hl, hr, hleft, hright⟩ := hs
    have hle := level_precedence_le h operator.kind
    rw [le_rank_iff hle] at hl
    rw [lt_rank_iff hle] at hr
    intro pair hmem
    rcases List.mem_append.1 hmem with hmem | hmem
    · exact Nat.le_trans hl (ihl hleft pair hmem)
    · rcases List.mem_cons.1 hmem with rfl | hmem
      · exact Nat.le_refl _
      · exact Nat.le_of_lt (Nat.lt_of_lt_of_le hr (ihr hright pair hmem))

/-- Each step to the right takes a level of nesting and goes up a level of operators. -/
theorem Stratified.nesting_le (h : tables.Binary) {tree : OperatorTree} {bound : Nat}
    (hs : tree.Stratified tables) (hfirst : tree.parts.1.phrase.nesting ≤ bound)
    (hfurther : ∀ pair ∈ tree.parts.2, pair.2.phrase.nesting ≤ bound) :
    tree.phrase.nesting + tree.rank tables ≤ bound + 6 := by
  induction tree with
  | leaf token => exact Nat.add_le_add_right hfirst 6
  | unary operator right ih => exact Nat.add_le_add_right hfirst 6
  | binary left operator right ihl ihr =>
    obtain ⟨-, hl, hr, hleft, hright⟩ := hs
    have hle := level_precedence_le h operator.kind
    rw [le_rank_iff hle] at hl
    rw [lt_rank_iff hle] at hr
    have hleftNesting := ihl hleft hfirst
      fun pair hmem => hfurther pair (List.mem_append_left _ hmem)
    have hrightNesting := ihr hright
      (hfurther _ (List.mem_append_right _ List.mem_cons_self))
      fun pair hmem => hfurther pair (List.mem_append_right _ (List.mem_cons_of_mem _ hmem))
    simp only [phrase, Phrase.nesting, rank]
    omega

/-- The tokens of an operand tell where it ends and which it is. -/
theorem IsOperand.tokens_inj {x y : OperatorTree} (hx : x.IsOperand tables)
    (hy : y.IsOperand tables) {s t : List Token} (h : x.tokens ++ s = y.tokens ++ t) :
    x = y ∧ s = t := by
  induction x generalizing y with
  | leaf token =>
    cases y with
    | leaf token' =>
      obtain ⟨rfl, rfl⟩ := List.cons.inj h
      exact ⟨rfl, rfl⟩
    | unary operator right =>
      obtain ⟨rfl, -⟩ := List.cons.inj h
      exact absurd hx.stratified hy.stratified.1.not_isOperand
    | binary left operator right => cases hy.operator
  | unary operator right ih =>
    obtain ⟨hsign, hnone, hright⟩ := hx.stratified
    cases y with
    | leaf token =>
      obtain ⟨rfl, -⟩ := List.cons.inj h
      exact absurd hy.stratified hsign.not_isOperand
    | unary operator' right' =>
      obtain ⟨-, hnone', hright'⟩ := hy.stratified
      obtain ⟨rfl, htail⟩ := List.cons.inj h
      obtain ⟨rfl, rfl⟩ := ih ⟨hnone, hright⟩ ⟨hnone', hright'⟩ htail
      exact ⟨rfl, rfl⟩
    | binary left operator' right' => cases hy.operator
  | binary left operator right => cases hx.operator

/-- The tokens of operands and operators tell which they are. -/
theorem spell_inj {x y : OperatorTree} {xs ys : List (Token × OperatorTree)}
    (hx : x.IsOperand tables) (hxs : ∀ pair ∈ xs, pair.2.IsOperand tables)
    (hy : y.IsOperand tables) (hys : ∀ pair ∈ ys, pair.2.IsOperand tables)
    (h : x.tokens ++ spell xs = y.tokens ++ spell ys) : x = y ∧ xs = ys := by
  induction xs generalizing x y ys with
  | nil =>
    obtain ⟨rfl, hspell⟩ := hx.tokens_inj hy h
    cases ys with
    | nil => exact ⟨rfl, rfl⟩
    | cons pair ys => cases hspell
  | cons pair xs ih =>
    obtain ⟨rfl, hspell⟩ := hx.tokens_inj hy h
    obtain ⟨operator, operand⟩ := pair
    cases ys with
    | nil => cases hspell
    | cons pair' ys =>
      obtain ⟨operator', operand'⟩ := pair'
      obtain ⟨rfl, htail⟩ := List.cons.inj hspell
      obtain ⟨hoperand, hrest⟩ := List.forall_mem_cons.1 hxs
      obtain ⟨hoperand', hrest'⟩ := List.forall_mem_cons.1 hys
      obtain ⟨rfl, rfl⟩ := ih hoperand hrest hoperand' hrest' htail
      exact ⟨rfl, rfl⟩

end Parts

/-! ## Putting trees together -/

/-- Attaches an operator with its right operand, below the operators on the right side that bind
less tightly. -/
def attach (tables : Tables) : OperatorTree → Token → OperatorTree → OperatorTree
  | binary left inner right, operator, operand =>
    if tables.precedence inner.kind < tables.precedence operator.kind then
      binary left inner (right.attach tables operator operand)
    else binary (binary left inner right) operator operand
  | tree, operator, operand => binary tree operator operand

/-- Attaches further operands to a tree, from left to right. -/
def assemble (tables : Tables) (tree : OperatorTree) (further : List (Token × OperatorTree)) :
    OperatorTree :=
  further.foldl (fun tree (operator, operand) => tree.attach tables operator operand) tree

section Assembly

variable {tables : Tables}

theorem attach_of_le {tree : OperatorTree} {operator : Token} (operand : OperatorTree)
    (hle : (tables.precedence operator.kind).level ≤ tree.rank tables) :
    tree.attach tables operator operand = binary tree operator operand := by
  cases tree with
  | binary left inner right => exact if_neg (Nat.not_lt.2 hle)
  | _ => rfl

theorem parts_attach (tree : OperatorTree) {operator : Token} {operand : OperatorTree}
    (h : operand.operator? = none) :
    (tree.attach tables operator operand).parts =
      (tree.parts.1, tree.parts.2 ++ [(operator, operand)]) := by
  have hparts := parts_of_isOperand h
  induction tree with
  | leaf token => simp [attach, parts, hparts]
  | unary sign right ih => simp [attach, parts, hparts]
  | binary left inner right ihl ihr =>
    unfold attach
    split
    next => simp [parts, ihr]
    next => simp [parts, hparts]

theorem parts_assemble {tree : OperatorTree} {further : List (Token × OperatorTree)}
    (h : ∀ pair ∈ further, pair.2.operator? = none) :
    (tree.assemble tables further).parts = (tree.parts.1, tree.parts.2 ++ further) := by
  induction further generalizing tree with
  | nil => simp [assemble]
  | cons pair further ih =>
    obtain ⟨hpair, hrest⟩ := List.forall_mem_cons.1 h
    change ((tree.attach tables pair.1 pair.2).assemble tables further).parts = _
    rw [ih hrest, parts_attach tree hpair, List.append_assoc]
    rfl

/-- Attaching an operator keeps a tree stratified. -/
theorem Stratified.attach (h : tables.Binary) {tree operand : OperatorTree} {operator : Token}
    (hs : tree.Stratified tables) (hoperand : operand.IsOperand tables)
    (hkind : (tables.operator? operator.kind).isSome = true) :
    (tree.attach tables operator operand).Stratified tables ∧
      (tree.attach tables operator operand).rank tables =
        min (tree.rank tables) (tables.precedence operator.kind).level := by
  have hle := level_precedence_le h operator.kind
  have htop : (tables.precedence operator.kind).level < operand.rank tables := by
    rw [rank_of_operator?_eq_none hoperand.operator]
    omega
  -- where the operator binds no tighter than the whole, it becomes the operator of the whole
  have hwhole : ∀ whole : OperatorTree, whole.Stratified tables →
      (tables.precedence operator.kind).level ≤ whole.rank tables →
      (binary whole operator operand).Stratified tables := fun whole hwhole hrank =>
    ⟨hkind, (le_rank_iff hle).2 hrank, (lt_rank_iff hle).2 htop, hwhole, hoperand.stratified⟩
  have hsix : (tables.precedence operator.kind).level ≤ 6 := Nat.le_succ_of_le hle
  induction tree with
  | leaf token => exact ⟨hwhole _ hs hsix, (Nat.min_eq_right hsix).symm⟩
  | unary sign right ih => exact ⟨hwhole _ hs hsix, (Nat.min_eq_right hsix).symm⟩
  | binary left inner right ihl ihr =>
    obtain ⟨hinner, hl, hr, hleft, hright⟩ := hs
    have hinnerLe := level_precedence_le h inner.kind
    unfold OperatorTree.attach
    split
    next hlt =>
      obtain ⟨hstratified, hrank⟩ := ihr hright
      rw [lt_rank_iff hinnerLe] at hr
      refine ⟨⟨hinner, hl, (lt_rank_iff hinnerLe).2 ?_, hleft, hstratified⟩, ?_⟩
      · rw [hrank]
        exact Nat.lt_min.2 ⟨hr, hlt⟩
      · exact (Nat.min_eq_left (Nat.le_of_lt hlt)).symm
    next hnot =>
      have hge : (tables.precedence operator.kind).level ≤ (tables.precedence inner.kind).level :=
        Nat.not_lt.1 hnot
      exact ⟨hwhole _ ⟨hinner, hl, hr, hleft, hright⟩ hge, (Nat.min_eq_right hge).symm⟩

theorem Stratified.assemble (h : tables.Binary) {tree : OperatorTree}
    {further : List (Token × OperatorTree)} (hs : tree.Stratified tables)
    (hfurther : ∀ pair ∈ further,
      (tables.operator? pair.1.kind).isSome = true ∧ pair.2.IsOperand tables) :
    (tree.assemble tables further).Stratified tables := by
  induction further generalizing tree with
  | nil => exact hs
  | cons pair further ih =>
    obtain ⟨⟨hkind, hoperand⟩, hrest⟩ := List.forall_mem_cons.1 hfurther
    exact ih (hs.attach h hoperand hkind).1 hrest

/-- Operators that bind more tightly than one all go to its right side. -/
theorem assemble_binary {left right : OperatorTree} {operator : Token}
    {further : List (Token × OperatorTree)}
    (h : ∀ pair ∈ further,
      (tables.precedence operator.kind).level < (tables.precedence pair.1.kind).level) :
    (binary left operator right).assemble tables further =
      binary left operator (right.assemble tables further) := by
  induction further generalizing right with
  | nil => rfl
  | cons pair further ih =>
    obtain ⟨hpair, hrest⟩ := List.forall_mem_cons.1 h
    have hattach : (binary left operator right).attach tables pair.1 pair.2 =
        binary left operator (right.attach tables pair.1 pair.2) := if_pos hpair
    change ((binary left operator right).attach tables pair.1 pair.2).assemble tables further = _
    rw [hattach]
    exact ih hrest

/-- A stratified tree is put together again from its parts. -/
theorem Stratified.assemble_parts (h : tables.Binary) {tree : OperatorTree}
    (hs : tree.Stratified tables) : tree.parts.1.assemble tables tree.parts.2 = tree := by
  induction tree with
  | leaf token => rfl
  | unary sign right ih => rfl
  | binary left operator right ihl ihr =>
    obtain ⟨-, hl, hr, hleft, hright⟩ := hs
    have hle := level_precedence_le h operator.kind
    rw [le_rank_iff hle] at hl
    rw [lt_rank_iff hle] at hr
    have hsplit : left.parts.1.assemble tables
        (left.parts.2 ++ (operator, right.parts.1) :: right.parts.2) =
        ((left.parts.1.assemble tables left.parts.2).attach tables operator
          right.parts.1).assemble tables right.parts.2 := List.foldl_append
    have hlater : ∀ pair ∈ right.parts.2,
        (tables.precedence operator.kind).level < (tables.precedence pair.1.kind).level :=
      fun pair hmem => Nat.lt_of_lt_of_le hr (hright.rank_le h pair hmem)
    rw [parts, hsplit, ihl hleft, attach_of_le _ hl, assemble_binary hlater, ihr hright]

/-- There is one stratified tree for its tokens. -/
theorem Stratified.eq_of_tokens (h : tables.Binary) {a b : OperatorTree}
    (ha : a.Stratified tables) (hb : b.Stratified tables) (htokens : a.tokens = b.tokens) :
    a = b := by
  obtain ⟨hfirst, hfurther⟩ := ha.isOperand_parts
  obtain ⟨hfirst', hfurther'⟩ := hb.isOperand_parts
  rw [← tokens_parts a, ← tokens_parts b] at htokens
  obtain ⟨hsame, hsames⟩ := spell_inj hfirst hfurther hfirst' hfurther' htokens
  rw [← ha.assemble_parts h, ← hb.assemble_parts h, hsame, hsames]

end Assembly

end OperatorTree

/-! ## Chains -/

/-- A token behind unary operators. -/
def OperatorTree.signed (signs : List Token) (token : Token) : OperatorTree :=
  signs.foldr unary (leaf token)

theorem OperatorTree.tokens_signed (signs : List Token) (token : Token) :
    (signed signs token).tokens = signs ++ [token] := by
  induction signs with
  | nil => rfl
  | cons sign signs ih => exact congrArg (sign :: ·) ih

theorem OperatorTree.isOperand_signed {signs : List Token} {token : Token} (tables : Tables)
    (hsigns : ∀ sign ∈ signs, sign.IsSign) (htoken : token.IsOperand) :
    (signed signs token).IsOperand tables := by
  induction signs with
  | nil => exact ⟨rfl, htoken⟩
  | cons sign signs ih =>
    obtain ⟨hsign, hrest⟩ := List.forall_mem_cons.1 hsigns
    obtain ⟨hnone, hstratified⟩ := ih hrest
    exact ⟨rfl, hsign, hnone, hstratified⟩

theorem OperatorTree.nesting_signed (signs : List Token) (token : Token) :
    (signed signs token).phrase.nesting = signs.length + 1 := by
  induction signs with
  | nil => simp only [signed, List.foldr_nil, phrase]; split <;> rfl
  | cons sign signs ih =>
    change (unary sign (signed signs token)).phrase.nesting = _
    rw [phrase, Phrase.nesting, ih, List.length_cons]
    omega

/-- An operand with at most 250 unary operators in front of it. -/
structure SignedOperand where
  signs : List Token
  leaf : Token
  isSign : ∀ sign ∈ signs, sign.IsSign
  length_le : signs.length ≤ 250
  isOperand : leaf.IsOperand

namespace SignedOperand

def tokens (operand : SignedOperand) : List Token :=
  operand.signs ++ [operand.leaf]

def tree (operand : SignedOperand) : OperatorTree :=
  .signed operand.signs operand.leaf

theorem tokens_tree (operand : SignedOperand) : operand.tree.tokens = operand.tokens :=
  OperatorTree.tokens_signed operand.signs operand.leaf

theorem isOperand_tree (operand : SignedOperand) (tables : Tables) :
    operand.tree.IsOperand tables :=
  OperatorTree.isOperand_signed tables operand.isSign operand.isOperand

theorem nesting_tree_le (operand : SignedOperand) : operand.tree.phrase.nesting ≤ 251 := by
  have hlength := operand.length_le
  rw [tree, OperatorTree.nesting_signed]
  omega

end SignedOperand

/-- Operands with operators of some tables between them. -/
structure Chain (tables : Tables) where
  first : SignedOperand
  further : List (Token × SignedOperand)
  isOperator : ∀ pair ∈ further, (tables.operator? pair.1.kind).isSome = true

namespace Chain

variable {tables : Tables}

def tokens (chain : Chain tables) : List Token :=
  chain.first.tokens ++ chain.further.flatMap fun (operator, operand) => operator :: operand.tokens

/-- The stratified tree of a chain. -/
def tree (chain : Chain tables) : OperatorTree :=
  chain.first.tree.assemble tables
    (chain.further.map fun (operator, operand) => (operator, operand.tree))

theorem parts_tree (chain : Chain tables) :
    chain.tree.parts = (chain.first.tree,
      chain.further.map fun (operator, operand) => (operator, operand.tree)) := by
  have hfirst := OperatorTree.parts_of_isOperand (chain.first.isOperand_tree tables).operator
  rw [tree, OperatorTree.parts_assemble, hfirst, List.nil_append]
  intro pair hmem
  obtain ⟨⟨operator, operand⟩, -, rfl⟩ := List.mem_map.1 hmem
  exact (operand.isOperand_tree tables).operator

theorem tokens_tree (chain : Chain tables) : chain.tree.tokens = chain.tokens := by
  rw [← OperatorTree.tokens_parts, parts_tree, SignedOperand.tokens_tree, tokens]
  simp [OperatorTree.spell, List.flatMap_map, SignedOperand.tokens_tree]

theorem stratified_tree (h : tables.Binary) (chain : Chain tables) :
    chain.tree.Stratified tables := by
  apply OperatorTree.Stratified.assemble h (chain.first.isOperand_tree tables).stratified
  intro pair hmem
  obtain ⟨⟨operator, operand⟩, hpair, rfl⟩ := List.mem_map.1 hmem
  exact ⟨chain.isOperator _ hpair, operand.isOperand_tree tables⟩

theorem nesting_tree_le (h : tables.Binary) (chain : Chain tables) :
    chain.tree.phrase.nesting ≤ maxNesting := by
  have hs := chain.stratified_tree h
  have hfurther : ∀ pair ∈ chain.tree.parts.2, pair.2.phrase.nesting ≤ 251 := by
    rw [parts_tree]
    intro pair hmem
    obtain ⟨⟨operator, operand⟩, -, rfl⟩ := List.mem_map.1 hmem
    exact operand.nesting_tree_le
  have hfirst : chain.tree.parts.1.phrase.nesting ≤ 251 := by
    rw [parts_tree]
    exact chain.first.nesting_tree_le
  have hbound := hs.nesting_le h hfirst hfurther
  have hpos : 0 < chain.tree.rank tables := by
    rw [← OperatorTree.level_phrase h hs]
    exact (hs.fits h .endOfInput).level_pos
  rw [maxNesting]
  omega

end Chain

/--
With any binary operators registered, and in front of a chain that a semicolon or the end of input
follows, an expression is read that is the one stratified tree of the chain. Nothing is found wrong,
and the last token of the chain is current afterwards.
-/
theorem parseExpression_chain {σ : Type} [TokenSource σ] (registrations : List Registration)
    (chain : Chain ((Tables.standard {}).register registrations)) {supply : σ} {rest : List Token}
    (hcontent : TokenSource.content supply = chain.tokens ++ rest)
    (hnext : leadKind .endOfInput rest = .semicolon ∨ leadKind .endOfInput rest = .endOfInput) :
    ∃ tree : OperatorTree,
      tree.tokens = chain.tokens ∧
      tree.Stratified ((Tables.standard {}).register registrations) ∧
      (∀ other : OperatorTree, other.tokens = chain.tokens →
        other.Stratified ((Tables.standard {}).register registrations) → other = tree) ∧
      ∃ after, (parseExpression .lowest).run { Parser.ofSupply supply {} with
          tables := (Tables.standard {}).register registrations } = .ok tree.expression after ∧
        after.diagnostics = #[] ∧ chain.tokens.getLast? = some after.current := by
  have htables := Tables.binary_standard.register registrations
  have hs := chain.stratified_tree htables
  refine ⟨chain.tree, chain.tokens_tree, hs, ?_, ?_⟩
  · intro other htokens hother
    exact hother.eq_of_tokens htables hs (htokens.trans chain.tokens_tree.symm)
  let parser := { Parser.ofSupply supply {} with
    tables := (Tables.standard {}).register registrations }
  have hprepared : parser.Prepared (.ofTables htables) :=
    ⟨⟨Grammar.describes_ofTables htables, rfl⟩, Nat.zero_le _⟩
  have hinput : parser.input = chain.tree.phrase.tokens ++ rest := by
    rw [OperatorTree.tokens_phrase, chain.tokens_tree, ← hcontent]
    exact Parser.input_ofSupply supply {}
  have hstarts : chain.tree.phrase.Starts (.ofTables htables) parser rest :=
    ⟨hprepared, hinput, hs.fits htables _, .inl (OperatorTree.closed_phrase _)⟩
  have hends : ¬(Grammar.ofTables htables).Continues (leadKind .endOfInput rest) := by
    rw [Grammar.not_continues_iff]
    rcases hnext with hkind | hkind
    · rw [hkind, Grammar.strength_semicolon]
    · rw [hkind, Grammar.strength_endOfInput]
  have hreaches := (chain.tree.phrase.operates (.ofTables htables)).whole hends hstarts
  obtain ⟨after, hpass, hbehind, hrun⟩ := hreaches.within (by
    rw [show parser.depth = 0 from rfl, Nat.zero_add]
    exact chain.nesting_tree_le htables)
  refine ⟨after, ?_, hpass.clean, ?_⟩
  · rw [run_parseExpression hprepared.keepsEnd, hrun, OperatorTree.tree_phrase]
  · rw [← chain.tokens_tree, ← OperatorTree.tokens_phrase]
    exact hbehind.current (OperatorTree.closed_phrase _)

/-- Tables in which `-` binds tightest, `!` as `+` does, and `,` is an operator too. -/
def sampleTables : List Registration :=
  [⟨.comma, .equality, by decide, by decide, by decide, by decide⟩,
    ⟨.dash, .unary, by decide, by decide, by decide, by decide⟩,
    ⟨.bang, .sum, by decide, by decide, by decide, by decide⟩]

/-- The chain `!a - -1 * b, c ! true`. -/
def sampleChain : Chain ((Tables.standard {}).register sampleTables) where
  first := ⟨[.synthetic .bang "!"], .synthetic .identifier "a",
    List.forall_mem_singleton.2 (.inl rfl), by decide, .inl rfl⟩
  further :=
    [(.synthetic .dash "-", ⟨[.synthetic .dash "-"], .synthetic .integer "1",
        List.forall_mem_singleton.2 (.inr rfl), by decide,
        .inr (.inr (.inr ⟨rfl, by decide +kernel⟩))⟩),
      (.synthetic .star "*", ⟨[], .synthetic .identifier "b", List.forall_mem_nil _, by decide,
        .inl rfl⟩),
      (.synthetic .comma ",", ⟨[], .synthetic .identifier "c", List.forall_mem_nil _, by decide,
        .inl rfl⟩),
      (.synthetic .bang "!", ⟨[], .synthetic .trueWord "true", List.forall_mem_nil _, by decide,
        .inr (.inl rfl)⟩)]
  isOperator := List.all_eq_true.1 rfl

theorem parseExpression_sampleChain :
    TokenSource.content (TokenStream.ofList (sampleChain.tokens ++ [.synthetic .semicolon ";"])) =
      sampleChain.tokens ++ [.synthetic .semicolon ";"] ∧
    ∃ tree : OperatorTree,
      tree.tokens = sampleChain.tokens ∧
      tree.Stratified ((Tables.standard {}).register sampleTables) ∧
      ∃ after, (parseExpression .lowest).run { Parser.ofSupply (TokenStream.ofList
          (sampleChain.tokens ++ [.synthetic .semicolon ";"])) {} with
            tables := (Tables.standard {}).register sampleTables } = .ok tree.expression after ∧
        after.diagnostics = #[] ∧ sampleChain.tokens.getLast? = some after.current := by
  have hcontent : TokenSource.content (TokenStream.ofList
      (sampleChain.tokens ++ [.synthetic .semicolon ";"])) =
      sampleChain.tokens ++ [.synthetic .semicolon ";"] := by decide +kernel
  obtain ⟨tree, htokens, hstratified, -, hrun⟩ :=
    parseExpression_chain sampleTables sampleChain hcontent (.inl rfl)
  exact ⟨hcontent, tree, htokens, hstratified, hrun⟩

end Monkey
