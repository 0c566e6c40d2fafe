import Monkey.Proofs.Invariant
import Monkey.Proofs.Mirror

/-!
# Names and places do not matter

The parser does not look at names, nor at places: if the names in a list of tokens are replaced and
the tokens are put somewhere else, then the program is the same up to these names, and the same is
found wrong at the same tokens (`parseTokens_relabel`).

That the places make no difference is known from supplies of the same tokens (`parse_mirrors`). For
the names, a supply is parsed beside itself with its names replaced (`Renamed`). There the one
parser is the other one with another window (`Parser.rename`), so what has to be shown of every step
is only which trees come out.
-/

namespace Monkey

open ParserM TokenSource

variable {σ : Type} [TokenSource σ] (r : String → String)

/-! ## Trees with other names -/

mutual

/-- An expression with its names replaced: those of identifiers, parameters and bindings. -/
def Expression.rename : Expression → Expression
  | .identifier name => .identifier (r name)
  | .integer value literal => .integer value literal
  | .boolean value => .boolean value
  | .unary operator right => .unary operator right.rename
  | .binary left operator right => .binary left.rename operator right.rename
  | .conditional condition consequence alternative =>
    .conditional condition.rename (renameBlock consequence) (renameAlternative alternative)
  | .function parameters body => .function (parameters.map r) (renameBlock body)
  | .call callee arguments => .call callee.rename (renameEach arguments)

/-- A statement with its names replaced. -/
def Statement.rename : Statement → Statement
  | .letBinding name value => .letBinding (r name) value.rename
  | .returning value => .returning value.rename
  | .expression value => .expression value.rename
  | .block body => .block (renameBlock body)

/-- Statements with their names replaced. -/
def renameBlock : List Statement → List Statement
  | [] => []
  | statement :: body => statement.rename :: renameBlock body

/-- What follows the first block of a conditional, with its names replaced. -/
def renameAlternative : Option (List Statement) → Option (List Statement)
  | none => none
  | some body => some (renameBlock body)

/-- Expressions with their names replaced. -/
def renameEach : List Expression → List Expression
  | [] => []
  | expression :: rest => expression.rename :: renameEach rest

end

/-- A program with its names replaced. -/
def Program.rename (program : Program) : Program :=
  ⟨renameBlock r program.statements⟩

theorem renameBlock_eq_map (body : List Statement) :
    renameBlock r body = body.map (Statement.rename r) := by
  induction body with
  | nil => rfl
  | cons statement body ih => rw [renameBlock, ih, List.map_cons]

theorem renameEach_eq_map (expressions : List Expression) :
    renameEach r expressions = expressions.map (Expression.rename r) := by
  induction expressions with
  | nil => rfl
  | cons expression rest ih => rw [renameEach, ih, List.map_cons]

theorem forall₂_map_eq_iff {α β : Type} {f : α → β} {l : List α} {l' : List β} :
    List.Forall₂ (fun a b => f a = b) l l' ↔ l.map f = l' := by
  rw [← List.forall₂_map_left_iff (R := Eq), List.forall₂_eq_eq_eq]

/-- The second reading has the values of the first one with their names replaced. -/
def Values.renamed : Values where
  calls := True
  name n n' := r n = n'
  sign := Eq
  operator := Eq
  expression e e' := e.rename r = e'
  statement s s' := s.rename r = s'
  identifier := by rintro _ _ rfl; rfl
  boolean _ := rfl
  unary := by rintro _ _ _ _ rfl rfl; rfl
  binary := by rintro _ _ _ _ _ _ rfl rfl rfl; rfl
  conditional := by
    rintro _ _ b b' a a' rfl hb ha
    rw [forall₂_map_eq_iff, ← renameBlock_eq_map] at hb
    subst hb
    cases ha with
    | none => rfl
    | some ha =>
      rw [forall₂_map_eq_iff, ← renameBlock_eq_map] at ha
      subst ha
      rfl
  function := by
    intro _ _ _ _ hn hb
    rw [forall₂_map_eq_iff] at hn hb
    rw [Expression.rename, hn, renameBlock_eq_map, hb]
  call := by
    intro _ _ _ _ _ hc ha
    rw [forall₂_map_eq_iff] at ha
    rw [Expression.rename, hc, renameEach_eq_map, ha]
  letBinding := by rintro _ _ _ _ rfl rfl; rfl
  returning := by rintro _ _ rfl; rfl
  expressionStatement := by rintro _ _ rfl; rfl

/-! ## Supplies with other names -/

/-- A token with its name replaced, if it is an identifier. -/
def Token.rename (token : Token) : Token :=
  { token with text := if token.kind = .identifier then r token.text else token.text }

/-- A supply whose names are replaced. -/
structure Renamed (r : String → String) (σ : Type) where
  supply : σ

instance : TokenSource (Renamed r σ) where
  next s := ((next s.supply).1.rename r, ⟨(next s.supply).2⟩)
  remaining s := remaining s.supply
  remaining_next_lt s := remaining_next_lt s.supply
  remaining_next_of_drained s := remaining_next_of_drained s.supply
  kind_next_of_drained s := kind_next_of_drained s.supply

theorem nth_renamed (supply : σ) (count : Nat) :
    nth (⟨supply⟩ : Renamed r σ) count = (nth supply count).rename r := by
  induction count generalizing supply with
  | zero => rfl
  | succ count ih => exact ih (next supply).2

/-- The same parser in front of a supply whose names are replaced. -/
def Parser.rename (p : Parser σ) : Parser (Renamed r σ) :=
  ⟨⟨p.supply⟩, p.current.rename r, p.peek.rename r, p.options, p.tables, p.depth, p.diagnostics,
    p.log⟩

/-- Each parser beside itself in front of other names. -/
def besideRenamed : Beside σ (Renamed r σ) where
  parser p := p.rename r
  tables h := h
  integer hkind := if_neg (by rw [hkind]; decide)

/-- Operators are no names, so what is read differs in its names only. -/
def replacingNames : Invariant (besideRenamed r (σ := σ)) Unit where
  values := .renamed r
  inner := id
  holds _ _ p := p.tables = .standard p.options
  tables h := h
  turn h _ := h
  advance h _ := h
  record h _ := h
  of_view := by
    intro _ _ p p' h hview
    simp only [Parser.view, Prod.mk.injEq] at hview
    obtain ⟨-, htables, hoptions, -⟩ := hview
    rw [htables, hoptions, h]
  name _ hkind := (if_pos hkind).symm
  sign _ hrule := by
    refine (if_neg fun hkind => ?_).symm
    rw [hkind] at hrule
    cases hrule
  operator h hrule := by
    refine (if_neg fun hkind => ?_).symm
    rw [h, hkind] at hrule
    cases hrule

/-- With its names replaced, a supply is parsed into the program with these names replaced, and the
same is found wrong. -/
theorem parse_renamed (supply : σ) (options : Options) :
    (parse (⟨supply⟩ : Renamed r σ) options).program = (parse supply options).program.rename r ∧
      (parse (⟨supply⟩ : Renamed r σ) options).diagnostics =
        (parse supply options).diagnostics := by
  have hbeside : .ofSupply (⟨supply⟩ : Renamed r σ) options =
      (Parser.ofSupply supply options).rename r := rfl
  obtain ⟨p, -, hstatements, hp, hq⟩ := (replacingNames r).parse (i := ()) hbeside rfl
  constructor
  · refine congrArg Program.mk ?_
    rw [renameBlock_eq_map]
    exact (forall₂_map_eq_iff.1 hstatements).symm
  · rw [hp, hq]
    rfl

/-! ## Lists of tokens -/

/-- The tokens with their names replaced, at other places. -/
def relabel (spans : Nat → Span) (tokens : List Token) : List Token :=
  tokens.mapIdx fun index token => { token.rename r with span := spans index }

/-- Two places that correspond: the starts of the tokens at one index, or the ends of both lists. -/
inductive SameIndex (tokens tokens' : List Token) : Position → Position → Prop where
  | token {index : Nat} {t t' : Token} : tokens[index]? = some t → tokens'[index]? = some t' →
    SameIndex tokens tokens' t.span.start t'.span.start
  | finish : SameIndex tokens tokens' (TokenStream.ofList tokens).finish
    (TokenStream.ofList tokens').finish

/-- Tokens that are relabeled are handed out in place of the others. -/
theorem mirrors_nth_relabel (spans : Nat → Span) (tokens : List Token) (count : Nat) :
    (nth (⟨.ofList tokens⟩ : Renamed r TokenStream) count).Mirrors
      (SameIndex tokens (relabel r spans tokens))
      (nth (TokenStream.ofList (relabel r spans tokens)) count) := by
  rw [nth_renamed]
  unfold TokenStream.ofList
  rw [nth_tokenStream, nth_tokenStream, List.getD_eq_getElem?_getD, List.getD_eq_getElem?_getD]
  have hget : (relabel r spans tokens)[count]? =
      tokens[count]?.map fun token => { token.rename r with span := spans count } :=
    List.getElem?_mapIdx
  cases htoken : tokens[count]? with
  | some token =>
    rw [htoken, Option.map_some] at hget
    rw [hget, Option.getD_some, Option.getD_some]
    have hplace : SameIndex tokens (relabel r spans tokens) token.span.start (spans count).start :=
      .token htoken hget
    exact ⟨rfl, fun _ => rfl, hplace⟩
  | none =>
    rw [htoken, Option.map_none] at hget
    rw [hget, Option.getD_none, Option.getD_none]
    exact ⟨rfl, fun _ => rfl, .finish⟩

/--
If names are replaced in a list of tokens and the tokens are put at other places, then a parse
yields the program with these names replaced, and nothing else changed. It records the same causes
in the same order, each at the token of the same index, or at the end.
-/
theorem parseTokens_relabel (spans : Nat → Span) (tokens : List Token) (options : Options) :
    (parseTokens (relabel r spans tokens) options).program =
        (parseTokens tokens options).program.rename r ∧
      List.Forall₂ (Diagnostic.Mirrors (SameIndex tokens (relabel r spans tokens)))
        (parseTokens tokens options).diagnostics
        (parseTokens (relabel r spans tokens) options).diagnostics := by
  obtain ⟨hprogram, hdiagnostics⟩ := parse_renamed r (TokenStream.ofList tokens) options
  obtain ⟨hsame, hplaces⟩ := parse_mirrors options (mirrors_nth_relabel r spans tokens)
  constructor
  · rw [parseTokens, parseTokens, ← hsame, hprogram]
  · rw [parseTokens, parseTokens, ← hdiagnostics]
    exact hplaces

example : (parseTokens (relabel (fun name => name ++ name) (fun _ => default)
    (tokenize "let a = -b" none)) {}).program =
      ⟨[.letBinding "aa" (.unary "-" (.identifier "bb"))]⟩ := by
  decide +kernel

end Monkey
